import DemandFlow.Proofs.Accounts.Entries

/-
  Client and broker never disagree upwards about demand: what the accounts of a subscription
  say is outstanding is at most what is asked for in commands, held by waiting pulls and carried
  by frames, in every run whose requests go out; and where a request is let in that does not go
  out, some run breaks the bound. Without byte budgets the two sides are equal.
-/

namespace DemandFlow.Accounts

open Broker (Command Live inboxName asked carried held)
open Exchange (Core)

/-- The accounts of every subscription that is not over are balanced. -/
def Ledger (c : Core) (pulled : List (Nat × PullRequest)) (l : Loopback) : Prop :=
  Keeps (fun i => Balanced (requestsOf i pulled)) c l

/-! ## Every run keeps the ledger -/

/-- The requests of a run after an entry. -/
def requestsAfter (pulled : List (Nat × PullRequest)) :
    Option (Nat × Entry) → List (Nat × PullRequest)
  | some (i, .added r) => (i, r) :: pulled
  | some (_, .took _) | none => pulled

theorem pulled_next (w : Run) (m : Move) :
    (w.next m).pulled = requestsAfter w.pulled (w.entry? m) := by
  cases m with
  | pull i r =>
    unfold Run.next Run.entry?
    dsimp only
    split <;> rfl
  | manage i =>
    unfold Run.next Run.entry?
    dsimp only
    cases w.exchange.nextFrame? i <;> rfl
  | _ => rfl

theorem requestsOf_after_other {i : Nat} {entry : Option (Nat × Entry)}
    (h : ∀ e, entry ≠ some (i, e)) (pulled : List (Nat × PullRequest)) :
    requestsOf i (requestsAfter pulled entry) = requestsOf i pulled := by
  cases entry with
  | none => rfl
  | some e =>
    obtain ⟨j, e⟩ := e
    cases e with
    | took f => rfl
    | added r => exact requestsOf_cons_other (fun hj => h (.added r) (by rw [hj])) r pulled

/-- Balance bears every entry. -/
theorem bears_balanced (pulled : List (Nat × PullRequest)) (entry : Option (Nat × Entry)) :
    Bears (fun i => Balanced (requestsOf i pulled))
      (fun i => Balanced (requestsOf i (requestsAfter pulled entry))) entry := by
  refine ⟨fun i d n hne h => ?_, fun i r d n he h => ?_, fun i f d n he hf h => ?_⟩
  · rw [requestsOf_after_other hne]
    exact h
  · subst he
    unfold requestsAfter
    rw [requestsOf_cons_self]
    split
    · rename_i hg
      exact balanced_issue h hg
    · rename_i hg
      exact balanced_strand h hg
  · subst he
    exact balanced_take h hf

theorem ledger_start (l : Broker.Limits) (keepsNotices : Bool) (queueCapacity : Nat) :
    Ledger (Run.start l keepsNotices queueCapacity).exchange.core [] (.start l true) :=
  keeps_start (fun _ => balanced_start) l keepsNotices queueCapacity

theorem ledger_next {w : Run} {l : Loopback} (h : Ledger w.exchange.core w.pulled l) {m : Move}
    (hm : m.Fits) : ∃ l', Ledger (w.next m).exchange.core (w.next m).pulled l' :=
  pulled_next w m ▸ keeps_next h hm (bears_balanced w.pulled (w.entry? m))

theorem ledger_after {w : Run} {l : Loopback} (h : Ledger w.exchange.core w.pulled l)
    (ms : List Move) (hms : ∀ m ∈ ms, m.Fits) :
    ∃ l', Ledger (w.after ms).exchange.core (w.after ms).pulled l' := by
  induction ms generalizing w l with
  | nil => exact ⟨l, h⟩
  | cons m ms ih =>
    obtain ⟨l', h'⟩ := ledger_next h (hms m List.mem_cons_self)
    exact ih h' fun m' hm' => hms m' (List.mem_cons_of_mem _ hm')

/-- Every request that was added to a demand was pulled by a move. -/
theorem pulled_after {w : Run} {ms : List Move} {p : Nat × PullRequest}
    (h : p ∈ (w.after ms).pulled) : p ∈ w.pulled ∨ Move.pull p.1 p.2 ∈ ms := by
  induction ms generalizing w with
  | nil => exact Or.inl h
  | cons m ms ih =>
    rcases ih (w := w.next m) h with hp | hp
    · cases m with
      | pull i r =>
        have hp' : p ∈ if isOpen w.exchange i then (i, r) :: w.pulled else w.pulled := hp
        split at hp'
        · rcases List.mem_cons.1 hp' with rfl | hp'
          · exact Or.inr List.mem_cons_self
          · exact Or.inl hp'
        · exact Or.inl hp'
      | opened q => exact Or.inl hp
      | publish q => exact Or.inl hp
      | broker => exact Or.inl hp
      | timers later => exact Or.inl hp
      | manage i => exact Or.inl hp
      | unsubscribe i => exact Or.inl hp
      | leave i => exact Or.inl hp
    · exact Or.inr (List.mem_cons_of_mem _ hp)

/-! ## Agreement -/

/-- Between two commands, the accounts of a subscription that is registered and has an open
feed say no more than what is asked for, waits and is carried; and they say just that where its
requests have no byte budgets and fit a word. -/
def Agree (w : Run) : Prop :=
  ∀ (i : Nat) (s : Subscription) (f : Feed) (l : Loopback),
    w.exchange.transport = .loopback l → l.broker.agenda = [] →
    w.exchange.subs[i]? = some s → w.exchange.feeds[s.feed]? = some f →
    l.broker.knows s.inbox = true → f.reading = true →
      s.demand.messages ≤ asked s.inbox l.commands.toList + held s.inbox l.broker.waiting +
        carried f.frames.toList ∧
      (Simple (requestsOf i w.pulled) →
        s.demand.messages = asked s.inbox l.commands.toList + held s.inbox l.broker.waiting +
          carried f.frames.toList)

theorem agree_of_ledger {w : Run} {l : Loopback} (h : Ledger w.exchange.core w.pulled l)
    (hg : ∀ p ∈ w.pulled, p.2.GoesOut) : Agree w := by
  intro i s f l' ht hag hs hf hk hr
  obtain rfl : l = l' := Transport.loopback.inj (h.transport.symm.trans ht)
  have hsf : s.feed = i := (h.subs i s hs).1
  rw [hsf] at hf
  have hb := h.kept i s f hs hf (Or.inl hk) hr
  have hz : stranded (requestsOf i w.pulled) = 0 := by
    refine stranded_eq_zero fun r hr => ?_
    obtain ⟨p, hp, rfl⟩ := List.mem_map.1 hr
    exact hg p (List.mem_filter.1 hp).1
  have hway : onWay s.inbox l f = asked s.inbox l.commands.toList + held s.inbox l.broker.waiting +
      carried f.frames.toList := by
    unfold onWay Broker.State.owed
    rw [hag]
    rfl
  rw [hway] at hb
  refine ⟨?_, fun hsimple => ?_⟩
  · have := hb.most
    omega
  · have := (hb.exact hsimple).2.1
    omega

/-- A request that does not go out leaves demand behind that nothing is on the way for. -/
theorem not_agree_next {w : Run} {i : Nat} {s : Subscription} {f : Feed} {l : Loopback}
    (ht : w.exchange.core.transport = .loopback l) (hag : l.broker.agenda = [])
    (hs : w.exchange.core.subs[i]? = some s) (hf : w.exchange.core.feeds[s.feed]? = some f)
    (hk : l.broker.knows s.inbox = true) (hread : f.reading = true) (hc : s.closed = false)
    (hway : asked s.inbox l.commands.toList + held s.inbox l.broker.waiting +
      carried f.frames.toList = 0) {r : PullRequest} (hr : ¬r.GoesOut) :
    ¬Agree (w.next (.pull i r)) := by
  have hcore : (w.next (.pull i r)).exchange.core = { w.exchange.core with
      subs := w.exchange.core.subs.modify i fun u => { u with tracker := s.tracker.added r } } :=
    Exchange.core_pull_overflow hs hc (issue_eq_none_iff.2 hr)
  have hsub : (w.next (.pull i r)).exchange.core.subs[i]? =
      some { s with tracker := s.tracker.added r } := by
    rw [hcore]
    dsimp only
    rw [Array.getElem?_modify, if_pos rfl, hs]
    rfl
  intro hagree
  have hle := (hagree i { s with tracker := s.tracker.added r } f l
    ((congrArg Core.transport hcore).trans ht) hag hsub
    ((congrArg (fun c => c.feeds[s.feed]?) hcore).trans hf) hk hread).1
  have hz : Count.add s.demand.messages r.batch ≤ 0 := by
    rw [hway] at hle
    exact hle
  have hb := r.batch_pos
  unfold Count.add Count.top at hz
  omega

theorem not_agree_of_stranded (l : Broker.Limits) (keepsNotices : Bool) (queueCapacity : Nat)
    {r : PullRequest} (hr : ¬r.GoesOut) :
    ¬Agree ((Run.start l keepsNotices queueCapacity).after
      [.opened .manual, .broker, .pull 0 r]) := by
  let b : Broker.State := { Broker.State.start l with inboxes := [inboxName 1] }
  let lb : Loopback := { Loopback.start l true with broker := b, nextInbox := 2 }
  have hk : b.knows (inboxName 1) = true := List.contains_iff_mem.2 List.mem_cons_self
  exact not_agree_next (w := (Run.start l keepsNotices queueCapacity).after
    [.opened .manual, .broker]) (s := .start (inboxName 1) 0 0 queueCapacity .manual)
    (f := .start (inboxName 1) l.frameCapacity (some 0)) (l := lb) rfl rfl rfl rfl hk rfl rfl rfl hr

/-- Whatever the limits of the broker are: demand is never overstated in any run with requests
of some kind exactly when all requests of that kind go out. -/
theorem agree_iff_goesOut (l : Broker.Limits) (keepsNotices : Bool) (queueCapacity : Nat)
    (kind : PullRequest → Prop) :
    (∀ ms, (∀ i r, Move.pull i r ∈ ms → kind r ∧ r.Fits) →
        Agree ((Run.start l keepsNotices queueCapacity).after ms)) ↔
      ∀ r, kind r → r.Fits → r.GoesOut := by
  refine ⟨?_, ?_⟩
  · intro h r hk hf
    refine Decidable.not_not.1 fun hn => ?_
    refine not_agree_of_stranded l keepsNotices queueCapacity hn
      (h [.opened .manual, .broker, .pull 0 r] ?_)
    intro i q hq
    have hqr : q = r := (show i = 0 ∧ q = r by simpa using hq).2
    rw [hqr]
    exact ⟨hk, hf⟩
  · intro h ms hms
    obtain ⟨l', hl'⟩ := ledger_after (ledger_start l keepsNotices queueCapacity) ms (by
      intro m hm
      cases m with
      | pull i r => exact (hms i r hm).2
      | opened p => trivial
      | publish m => trivial
      | broker => trivial
      | timers later => trivial
      | manage i => trivial
      | unsubscribe i => trivial
      | leave i => trivial)
    refine agree_of_ledger hl' fun p hp => ?_
    rcases pulled_after hp with hp | hp
    · cases hp
    · obtain ⟨hk, hf⟩ := hms p.1 p.2 hp
      exact h p.2 hk hf

theorem longest_ne_zero : some (Span.ofSecs Count.top) ≠ some Span.zero := by decide

/-- A request for one message whose heartbeat is as long as whole seconds can say. -/
def longestBeat : PullRequest :=
  ⟨1, 0, none, some (Span.ofSecs Count.top), false, Nat.one_pos, PullRequest.none_ne_zero,
    longest_ne_zero⟩

/-- That request is valid, and with it demand is overstated. -/
theorem longestBeat_overstates :
    longestBeat.draft.build = .ok longestBeat ∧ longestBeat.Fits ∧
      ¬Agree ((Run.start .default true Defaults.queueCapacity).after
        [.opened .manual, .broker, .pull 0 longestBeat]) :=
  ⟨PullRequest.build_draft longestBeat, ⟨by decide, by decide⟩,
    not_agree_of_stranded _ _ _ (by decide)⟩

end DemandFlow.Accounts
