import DemandFlow.Proofs.Accounts.Agreement
import DemandFlow.Proofs.Consume.Budget

/-
  What exhausted accounts say about the broker. Whatever requests a subscription mixes, its
  counter and what the accounts dropped make up what is on its way, what they settled in excess
  and what never went out. So where nothing is outstanding, pulls can still wait: just as many
  messages are asked for as were dropped without being settled later.
-/

namespace DemandFlow

/-! ## Tallies of entries -/

namespace Tally

/-- A request is added; what does not fit the counter is dropped. -/
def add (t : Tally) (r : PullRequest) : Tally :=
  ⟨t.demand.add r, t.dropped + t.demand.capped r, t.excess⟩

/-- A frame is taken in; where it makes the bytes run out, the messages are dropped. -/
def take (t : Tally) (f : Frame) : Tally :=
  ⟨t.demand.take f, t.dropped + t.demand.lapsedBy f, t.excess + t.demand.excessBy f⟩

def record (t : Tally) : Accounts.Entry → Tally
  | .added r => t.add r
  | .took f => t.take f

/-- The accounts after some entries. -/
def ofEntries (es : List Accounts.Entry) : Tally := es.foldl record ⟨.none, 0, 0⟩

theorem ofEntries_snoc (es : List Accounts.Entry) (e : Accounts.Entry) :
    ofEntries (es ++ [e]) = (ofEntries es).record e := by
  unfold ofEntries
  rw [List.foldl_append]
  rfl

end Tally

namespace Accounts

open Broker (asked held posted carried)
open Exchange (Core)

/-- What the moves of a run enter, each with the number of its subscription. -/
def Run.entries (w : Run) : List Move → List (Nat × Entry)
  | [] => []
  | m :: ms => (w.entry? m).toList ++ (w.next m).entries ms

/-- The entries of one subscription. -/
def entriesOf (i : Nat) (log : List (Nat × Entry)) : List Entry :=
  (log.filter fun e => e.1 = i).map Prod.snd

theorem entriesOf_append (i : Nat) (log log' : List (Nat × Entry)) :
    entriesOf i (log ++ log') = entriesOf i log ++ entriesOf i log' := by
  simp [entriesOf]

theorem entriesOf_self (i : Nat) (e : Entry) : entriesOf i [(i, e)] = [e] := by
  simp [entriesOf]

theorem entriesOf_other {i : Nat} {entry : Option (Nat × Entry)}
    (h : ∀ e, entry ≠ some (i, e)) : entriesOf i entry.toList = [] := by
  cases entry with
  | none => rfl
  | some e =>
    have hne : e.1 ≠ i := fun he => h e.2 (by rw [← he])
    simp [entriesOf, hne]

/-! ## The law of the counter -/

/-- The demand is that of the entries, and with what was dropped it makes up what is on its way,
what was settled in excess and what never went out. -/
structure Tallied (es : List Entry) (rs : List PullRequest) (d : Demand) (n : Nat) : Prop where
  demand : d = (Tally.ofEntries es).demand
  sum : d.messages + (Tally.ofEntries es).dropped =
    n + (Tally.ofEntries es).excess + stranded rs

theorem tallied_start : Tallied [] [] .none 0 := ⟨rfl, rfl⟩

theorem tallied_add {es : List Entry} {rs : List PullRequest} {d : Demand} {n : Nat}
    (h : Tallied es rs d n) (r : PullRequest) :
    Tallied (es ++ [.added r]) (r :: rs) (d.add r) (n + if r.GoesOut then r.batch else 0) := by
  have hadd := Demand.messages_add d r
  have hsum := h.sum
  have hs : stranded (r :: rs) = (if r.GoesOut then 0 else r.batch) + stranded rs := by
    split
    · rename_i hg
      rw [stranded_cons_of_goesOut hg, Nat.zero_add]
    · rename_i hg
      exact stranded_cons_of_not hg rs
  refine ⟨?_, ?_⟩
  · rw [Tally.ofEntries_snoc, h.demand]
    rfl
  · rw [Tally.ofEntries_snoc, hs]
    unfold Tally.record Tally.add
    dsimp only
    rw [← h.demand]
    split <;> omega

theorem tallied_take {es : List Entry} {rs : List PullRequest} {d : Demand} {n : Nat} {f : Frame}
    (h : Tallied es rs d (f.weight + n)) (hf : f.Honest) :
    Tallied (es ++ [.took f]) rs (d.take f) n := by
  have htake := Demand.messages_take (d := d) hf
  have hsum := h.sum
  refine ⟨?_, ?_⟩
  · rw [Tally.ofEntries_snoc, h.demand]
    rfl
  · rw [Tally.ofEntries_snoc]
    unfold Tally.record Tally.take
    dsimp only
    rw [← h.demand]
    omega

/-- The law of the counter bears every entry. -/
theorem bears_tallied (log : List (Nat × Entry)) (pulled : List (Nat × PullRequest))
    (entry : Option (Nat × Entry)) :
    Bears (fun i => Tallied (entriesOf i log) (requestsOf i pulled))
      (fun i => Tallied (entriesOf i (log ++ entry.toList))
        (requestsOf i (requestsAfter pulled entry))) entry := by
  refine ⟨fun i d n hne h => ?_, fun i r d n he h => ?_, fun i f d n he hf h => ?_⟩
  · rw [entriesOf_append, entriesOf_other hne, List.append_nil, requestsOf_after_other hne]
    exact h
  · subst he
    rw [Option.toList_some, entriesOf_append, entriesOf_self]
    unfold requestsAfter
    rw [requestsOf_cons_self]
    exact tallied_add h r
  · subst he
    rw [Option.toList_some, entriesOf_append, entriesOf_self]
    exact tallied_take h hf

/-- The law of the counter holds in every run. -/
theorem tallied_after {w : Run} {l : Loopback} (log : List (Nat × Entry))
    (h : Keeps (fun i => Tallied (entriesOf i log) (requestsOf i w.pulled)) w.exchange.core l)
    (ms : List Move) (hms : ∀ m ∈ ms, m.Fits) :
    ∃ l', Keeps (fun i => Tallied (entriesOf i (log ++ w.entries ms))
      (requestsOf i (w.after ms).pulled)) (w.after ms).exchange.core l' := by
  induction ms generalizing w l log with
  | nil =>
    unfold Run.entries
    rw [List.append_nil]
    exact ⟨l, h⟩
  | cons m ms ih =>
    obtain ⟨l', h'⟩ := keeps_next h (hms m List.mem_cons_self)
      (bears_tallied log w.pulled (w.entry? m))
    rw [← pulled_next] at h'
    obtain ⟨l'', h''⟩ := ih _ h' fun m' hm' => hms m' (List.mem_cons_of_mem _ hm')
    unfold Run.entries
    rw [← List.append_assoc]
    exact ⟨l'', h''⟩

/-! ## Exhausted accounts -/

/-- What is on its way to an inbox and does not wait at the broker. -/
def underWay (inbox : String) (l : Loopback) (f : Feed) : Nat :=
  asked inbox l.commands.toList + posted inbox l.broker.agenda + carried f.frames.toList

theorem onWay_eq (inbox : String) (l : Loopback) (f : Feed) :
    onWay inbox l f = held inbox l.broker.waiting + underWay inbox l f := by
  unfold onWay underWay Broker.State.owed
  omega

/-- Every waiting pull asks for something, so nothing is held only where none waits. -/
theorem held_eq_zero_iff {ps : List Broker.WaitingPull} (h : ∀ p ∈ ps, p.Fits) (inbox : String) :
    held inbox ps = 0 ↔ ∀ p ∈ ps, p.inbox ≠ inbox := by
  induction ps with
  | nil => simp [held]
  | cons p ps ih =>
    have hpos := (h p List.mem_cons_self).pos
    have hps := ih fun q hq => h q (List.mem_cons_of_mem _ hq)
    rw [Broker.held_cons, List.forall_mem_cons, ← hps, Broker.WaitingPull.heldFor]
    by_cases hp : p.inbox = inbox
    · rw [if_pos hp]
      simp only [hp, ne_eq, not_true_eq_false, false_and, iff_false]
      omega
    · rw [if_neg hp]
      simp [hp]

/-- Where a subscription is exhausted, no pull waits for it exactly when what its accounts
dropped is under way, was settled in excess, or never went out. Without byte budgets, and
below the largest word, no pull ever waits then. -/
theorem none_waiting_iff (l : Broker.Limits) (keepsNotices : Bool) (queueCapacity : Nat)
    (ms : List Move) (hms : ∀ m ∈ ms, m.Fits) (i : Nat) (s : Subscription) (f : Feed)
    (lb : Loopback) :
    let start := Run.start l keepsNotices queueCapacity
    let w := start.after ms
    let t := Tally.ofEntries (entriesOf i (start.entries ms))
    w.exchange.transport = .loopback lb → w.exchange.subs[i]? = some s →
      w.exchange.feeds[s.feed]? = some f → lb.broker.knows s.inbox = true → f.reading = true →
      s.demand.isExhausted = true →
        ((∀ p ∈ lb.broker.waiting, p.inbox ≠ s.inbox) ↔
          t.dropped = underWay s.inbox lb f + t.excess + stranded (requestsOf i w.pulled)) ∧
        (Simple (requestsOf i w.pulled) → ∀ p ∈ lb.broker.waiting, p.inbox ≠ s.inbox) := by
  intro start w t ht hs hf hk hr he
  obtain ⟨l₁, hl₁⟩ := tallied_after (w := start) (l := .start l true) []
    (keeps_start (fun _ => tallied_start) l keepsNotices queueCapacity) ms hms
  obtain ⟨l₂, hl₂⟩ := ledger_after (ledger_start l keepsNotices queueCapacity) ms hms
  obtain rfl : l₁ = lb := Transport.loopback.inj (hl₁.transport.symm.trans ht)
  obtain rfl : l₂ = l₁ := Transport.loopback.inj (hl₂.transport.symm.trans ht)
  have hsf : s.feed = i := (hl₁.subs i s hs).1
  rw [hsf] at hf
  have hz : s.demand.messages = 0 := by
    simp only [Demand.isExhausted, Bool.and_eq_true, beq_iff_eq] at he
    exact he.1
  have hsum : s.demand.messages + t.dropped =
      onWay s.inbox l₂ f + t.excess + stranded (requestsOf i w.pulled) :=
    (hl₁.kept i s f hs hf (Or.inl hk) hr).sum
  have hexact := (hl₂.kept i s f hs hf (Or.inl hk) hr).exact
  rw [onWay_eq] at hsum hexact
  rw [← held_eq_zero_iff hl₁.sound.waiting]
  refine ⟨by omega, fun hsimple => ?_⟩
  have := (hexact hsimple).2.1
  omega

/-! ## A pull that is overlooked -/

/-- A subscription with an open feed is exhausted and nothing is under way to it, but pulls wait
for it at the broker. -/
def Overlooked (w : Run) (i : Nat) : Prop :=
  match w.exchange.transport, w.exchange.subs[i]? with
  | .loopback l, some s =>
    match w.exchange.feeds[s.feed]? with
    | some f => l.broker.knows s.inbox = true ∧ f.reading = true ∧ underWay s.inbox l f = 0 ∧
        s.demand.isExhausted = true ∧ ∃ p ∈ l.broker.waiting, p.inbox = s.inbox
    | none => False
  | .loopback _, none | .scripted _, _ => False

instance (w : Run) (i : Nat) : Decidable (Overlooked w i) := by
  unfold Overlooked
  split
  · split <;> infer_instance
  · infer_instance
  · infer_instance

theorem exists_of_overlooked {w : Run} {i : Nat} (h : Overlooked w i) :
    ∃ s f lb, w.exchange.transport = .loopback lb ∧ w.exchange.subs[i]? = some s ∧
      w.exchange.feeds[s.feed]? = some f ∧ lb.broker.knows s.inbox = true ∧ f.reading = true ∧
      underWay s.inbox lb f = 0 ∧ s.demand.isExhausted = true ∧
      ∃ p ∈ lb.broker.waiting, p.inbox = s.inbox := by
  unfold Overlooked at h
  split at h
  · rename_i lb s ht hs
    split at h
    · rename_i f hf
      obtain ⟨hk, hr, hu, he, hp⟩ := h
      exact ⟨s, f, lb, ht, hs, hf, hk, hr, hu, he, hp⟩
    · cases h
  · cases h
  · cases h

/-- Ten messages of any size. -/
def tenMessages : PullRequest :=
  ⟨10, 0, none, none, false, by decide, PullRequest.none_ne_zero, PullRequest.none_ne_zero⟩

/-- Ten messages of at most twenty bytes together. -/
def twentyBytes : PullRequest :=
  ⟨10, 20, none, none, false, by decide, PullRequest.none_ne_zero, PullRequest.none_ne_zero⟩

/-- Both are sent, and then a message of twenty bytes is published, handed out for the first and
managed. -/
def mixed : List Move :=
  [.opened .manual, .broker, .pull 0 tenMessages, .pull 0 twentyBytes, .broker, .broker, .broker,
    .broker, .publish (.plain "s" ⟨#[120]⟩), .broker, .broker, .broker, .broker, .manage 0]

theorem fits_mixed : ∀ m ∈ mixed, m.Fits := by
  have hten : tenMessages.Fits := ⟨by decide, by decide⟩
  have htwenty : twentyBytes.Fits := ⟨by decide, by decide⟩
  simp [mixed, Move.Fits, hten, htwenty]

/-- The message ends the window of both requests, and both wait on. -/
theorem mixed_overlooked : tenMessages.draft.build = .ok tenMessages ∧
    twentyBytes.draft.build = .ok twentyBytes ∧ (∀ m ∈ mixed, m.Fits) ∧
      Overlooked ((Run.start .default true Defaults.queueCapacity).after mixed) 0 :=
  ⟨PullRequest.build_draft _, PullRequest.build_draft _, fits_mixed, by decide +kernel⟩

/-- The equivalence in that run: nineteen messages were dropped. -/
theorem mixed_none_waiting_iff : (∀ m ∈ mixed, m.Fits) ∧
    let start := Run.start .default true Defaults.queueCapacity
    let w := start.after mixed
    let t := Tally.ofEntries (entriesOf 0 (start.entries mixed))
    t.dropped = 19 ∧ ∃ (s : Subscription) (f : Feed) (lb : Loopback),
      w.exchange.transport = .loopback lb ∧ w.exchange.subs[0]? = some s ∧
      w.exchange.feeds[s.feed]? = some f ∧ lb.broker.knows s.inbox = true ∧ f.reading = true ∧
      s.demand.isExhausted = true ∧
        ((∀ p ∈ lb.broker.waiting, p.inbox ≠ s.inbox) ↔
          t.dropped = underWay s.inbox lb f + t.excess + stranded (requestsOf 0 w.pulled)) ∧
        (Simple (requestsOf 0 w.pulled) → ∀ p ∈ lb.broker.waiting, p.inbox ≠ s.inbox) := by
  have ho : Overlooked ((Run.start .default true Defaults.queueCapacity).after mixed) 0 := by
    decide +kernel
  obtain ⟨s, f, lb, ht, hs, hf, hk, hr, _, he, _⟩ := exists_of_overlooked ho
  exact ⟨fits_mixed, by decide +kernel, s, f, lb, ht, hs, hf, hk, hr, he,
    none_waiting_iff .default true Defaults.queueCapacity mixed fits_mixed 0 s f lb ht hs hf hk hr
      he⟩

end Accounts

end DemandFlow
