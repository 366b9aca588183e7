import DemandFlow.Proofs.Broker.History
import Mathlib.Data.List.Infix
import Mathlib.Logic.ExistsUnique

/-
  Every pull is settled once. At any time a pull whose inbox was not forgotten was refused, or
  waits, or is filled, or was ended, and the counts agree: what was sent for it and what is left
  of it, in the queue or in the status that closes it, make up what it asked for.
-/

namespace DemandFlow.Broker

/-- The bytes that some messages count against a budget. -/
def weigh (ms : List Message) : Nat := (ms.map Message.size).sum

theorem weigh_snoc (ms : List Message) (m : Message) : weigh (ms ++ [m]) = weigh ms + m.size := by
  simp [weigh]

/-! ## One pull in the books -/

/-- What a letter brings for the pull with number `n`, heartbeats aside. -/
def Letter.mailFor? (n : Nat) : Letter → Option Mail
  | .mail k _ m => if k = n ∧ m.isBeat = false then some m else none
  | .injected _ _ => none

namespace Books

/-- The pull with a number, while it waits. -/
def pullOf (n : Nat) (k : Books) : Option WaitingPull :=
  (k.queue.find? fun e => e.1 == n).map Prod.snd

/-- All that was sent for the pull with a number, heartbeats aside, in order of time. -/
def mailOf (n : Nat) (k : Books) : List Mail := k.letters.filterMap (Letter.mailFor? n)

variable {k : Books} {n : Nat}

theorem pullOf_eq_none (h : ∀ e ∈ k.queue, e.1 ≠ n) : k.pullOf n = none := by
  unfold pullOf
  rw [List.find?_eq_none.2 fun e he => by simpa using h e he]
  rfl

theorem pullOf_eq_some (ho : k.Orderly) {p : WaitingPull} (h : (n, p) ∈ k.queue) :
    k.pullOf n = some p := by
  obtain ⟨xs, ys, hq⟩ := List.append_of_mem h
  have hp := ho.numbered
  rw [hq, List.pairwise_append] at hp
  have hx : xs.find? (fun e => e.1 == n) = none :=
    List.find?_eq_none.2 fun e he => by
      have := hp.2.2 e he (n, p) List.mem_cons_self
      simp only [beq_iff_eq]
      omega
  unfold pullOf
  rw [hq, List.find?_append, hx, Option.none_or, List.find?_cons_of_pos (by simp)]
  rfl

theorem mem_of_pullOf {p : WaitingPull} (h : k.pullOf n = some p) : (n, p) ∈ k.queue := by
  obtain ⟨e, he, rfl⟩ := Option.map_eq_some_iff.1 h
  have hn : e.1 = n := by simpa using List.find?_some he
  rw [← hn]
  exact List.mem_of_find?_eq_some he

theorem mailOf_eq_nil (h : ∀ inbox m, .mail n inbox m ∉ k.letters) : k.mailOf n = [] := by
  refine List.filterMap_eq_nil_iff.2 fun l hl => ?_
  cases l with
  | injected inbox f => rfl
  | mail i inbox m =>
    have hi : i ≠ n := fun e => h inbox m (e ▸ hl)
    simp [Letter.mailFor?, hi]

/-! ## What an event does to one pull -/

theorem pullOf_settle (ho : k.Orderly) {f : Nat → WaitingPull → Fate}
    (hf : ∀ n p, Fate.Of p (f n p)) (n : Nat) :
    (k.settle f).pullOf n = (k.pullOf n).bind fun p => (f n p).left := by
  cases hp : k.pullOf n with
  | none =>
    refine pullOf_eq_none fun e he hn => ?_
    obtain ⟨p, hmem, _⟩ := mem_settle he
    rw [hn] at hmem
    rw [pullOf_eq_some ho hmem] at hp
    cases hp
  | some p =>
    have hmem := mem_of_pullOf hp
    rw [Option.bind_some]
    cases hl : (f n p).left with
    | none =>
      refine pullOf_eq_none fun e he hn => ?_
      obtain ⟨q, hq, hleft⟩ := mem_settle he
      rw [hn] at hq hleft
      have hqp : q = p := Option.some.inj ((pullOf_eq_some ho hq).symm.trans hp)
      rw [hqp, hl] at hleft
      cases hleft
    | some q =>
      refine pullOf_eq_some (orderly_settle ho hf) (List.mem_filterMap.2 ⟨(n, p), hmem, ?_⟩)
      dsimp only
      rw [hl]
      rfl

theorem mailFor_of_ne {n i : Nat} (h : i ≠ n) (inbox : String) (ms : List Mail) :
    (ms.map (Letter.mail i inbox)).filterMap (Letter.mailFor? n) = [] := by
  refine List.filterMap_eq_nil_iff.2 fun l hl => ?_
  obtain ⟨m, _, rfl⟩ := List.mem_map.1 hl
  simp [Letter.mailFor?, h]

theorem mailFor_self (n : Nat) (inbox : String) (ms : List Mail) :
    (ms.map (Letter.mail n inbox)).filterMap (Letter.mailFor? n) =
      ms.filter fun m => !m.isBeat := by
  induction ms with
  | nil => rfl
  | cons m ms ih =>
    rw [List.map_cons, List.filterMap_cons, List.filter_cons, ih]
    cases hb : m.isBeat <;> simp [Letter.mailFor?, hb]

theorem mailOf_settle (ho : k.Orderly) (f : Nat → WaitingPull → Fate) (n : Nat) :
    (k.settle f).mailOf n = k.mailOf n ++
      (k.pullOf n).elim [] fun p => (f n p).mail.filter fun m => !m.isBeat := by
  unfold mailOf settle
  dsimp only
  rw [List.filterMap_append, List.filterMap_flatMap]
  refine congrArg (_ ++ ·) ?_
  have hne : ∀ {es : List (Nat × WaitingPull)}, (∀ e ∈ es, e.1 ≠ n) →
      (es.flatMap fun e => ((f e.1 e.2).mail.map fun m => Letter.mail e.1 e.2.inbox m).filterMap
        (Letter.mailFor? n)) = [] := fun h =>
    List.flatMap_eq_nil_iff.2 fun e he => mailFor_of_ne (h e he) _ _
  cases hp : k.pullOf n with
  | none =>
    refine hne fun e he hn => ?_
    rw [pullOf_eq_some ho (p := e.2) (by rw [← hn]; exact he)] at hp
    cases hp
  | some p =>
    obtain ⟨xs, ys, hq⟩ := List.append_of_mem (mem_of_pullOf hp)
    have hord := ho.numbered
    rw [hq, List.pairwise_append, List.pairwise_cons] at hord
    have hx : ∀ e ∈ xs, e.1 ≠ n := fun e he =>
      Nat.ne_of_lt (hord.2.2 e he (n, p) List.mem_cons_self)
    have hy : ∀ e ∈ ys, e.1 ≠ n := fun e he => Nat.ne_of_gt (hord.2.1.1 e he)
    rw [hq, List.flatMap_append, List.flatMap_cons, hne hx, hne hy, List.append_nil,
      List.nil_append]
    exact mailFor_self n _ _

end Books

/-! ## Where a pull stands -/

/-- A pull waits: what was sent for it and what is left make up what was asked for. -/
structure Serving (r : PullRequest) (p : WaitingPull) (ms : List Message) : Prop where
  pos : 0 < p.messages
  messages : ms.length + p.messages = r.batch
  bytes : 0 < r.maxBytes → ∃ left, p.bytes = some left ∧ weigh ms + left = r.maxBytes
  unbudgeted : r.maxBytes = 0 → p.bytes = none

/-- The four ways in which a pull can stand. -/
inductive Standing where
  | refused
  | waiting
  | filled
  | ended
deriving DecidableEq

/-- What it means for a pull that asked for `r` to stand in one of these ways: `p` is the pull
while it waits, and `mail` is what was sent for it. -/
def Standing.Holds (r : PullRequest) (p : Option WaitingPull) (mail : List Mail) : Standing → Prop
  | .refused =>
    p = none ∧ ∃ s, mail = [.refusal s] ∧ s.pendingCounts = some (r.batch, r.maxBytes)
  | .waiting => ∃ q ms, p = some q ∧ mail = ms.map Mail.message ∧ Serving r q ms
  | .filled =>
    p = none ∧ ∃ ms : List Message, mail = ms.map Mail.message ∧ ms.length = r.batch ∧
      (0 < r.maxBytes → weigh ms ≤ r.maxBytes)
  | .ended =>
    p = none ∧ ∃ (ms : List Message) (s : Status), mail = ms.map Mail.message ++ [.closing s] ∧
      ms.length < r.batch ∧ (0 < r.maxBytes → weigh ms ≤ r.maxBytes) ∧
      s.pendingCounts =
        some (r.batch - ms.length, if 0 < r.maxBytes then r.maxBytes - weigh ms else 0)

namespace Standing

variable {r : PullRequest} {p : Option WaitingPull} {mail : List Mail}

/-- Where a pull stands can be told from the queue and from the last thing sent for it. -/
def tell (p : Option WaitingPull) (mail : List Mail) : Standing :=
  if p.isSome then .waiting
  else
    match mail.getLast? with
    | some (.refusal _) => .refused
    | some (.closing _) => .ended
    | some (.message _) | some (.beat _) | none => .filled

theorem eq_tell {c : Standing} (h : c.Holds r p mail) : c = tell p mail := by
  cases c with
  | refused =>
    obtain ⟨rfl, s, rfl, _⟩ := h
    rfl
  | waiting =>
    obtain ⟨q, ms, rfl, _⟩ := h
    rfl
  | filled =>
    obtain ⟨rfl, ms, rfl, _⟩ := h
    unfold tell
    rw [List.getLast?_map]
    cases ms.getLast? <;> rfl
  | ended =>
    obtain ⟨rfl, ms, s, rfl, _⟩ := h
    unfold tell
    rw [List.getLast?_concat]
    rfl

end Standing

/-! ## What becomes of a waiting pull -/

section Fates

variable {r : PullRequest} {p : WaitingPull} {ms : List Message}

theorem serving_ofRequest (r : PullRequest) (inbox : String) (now : Nat) (heartbeats : Bool) :
    Serving r (.ofRequest inbox r now heartbeats) [] := by
  refine ⟨r.batch_pos, Nat.zero_add _, fun hb => ⟨r.maxBytes, ?_, Nat.zero_add _⟩, fun hb => ?_⟩
  · exact if_pos hb
  · exact if_neg (by omega)

/-- The bytes that are left are what the messages did not use. -/
theorem bytes_left (h : Serving r p ms) :
    p.bytes.getD 0 = if 0 < r.maxBytes then r.maxBytes - weigh ms else 0 := by
  split
  · rename_i hb
    obtain ⟨left, hl, hsum⟩ := h.bytes hb
    rw [hl]
    simp only [Option.getD_some]
    omega
  · rename_i hb
    rw [h.unbudgeted (by omega)]
    rfl

theorem weigh_le (h : Serving r p ms) : 0 < r.maxBytes → weigh ms ≤ r.maxBytes := by
  intro hb
  obtain ⟨left, _, hsum⟩ := h.bytes hb
  omega

theorem pendingCounts_closing (h : Serving r p ms) (hr : r.Fits) (code : Nat) (text : String) :
    (p.closing code text).pendingCounts =
      some (r.batch - ms.length, if 0 < r.maxBytes then r.maxBytes - weigh ms else 0) := by
  have hm := h.messages
  have hbatch := hr.batch
  have hbytes := hr.maxBytes
  have hleft := bytes_left h
  unfold WaitingPull.closing
  rw [Status.pendingCounts_withHeaders (by omega) (by rw [hleft]; split <;> omega), hleft]
  congr 2
  omega

theorem ended_holds (h : Serving r p ms) (hr : r.Fits) (code : Nat) (text : String) :
    Standing.ended.Holds r none (ms.map Mail.message ++ [.closing (p.closing code text)]) := by
  have hpos := h.pos
  have hm := h.messages
  exact ⟨rfl, ms, _, rfl, by omega, weigh_le h, pendingCounts_closing h hr code text⟩

/-- A message that is no larger than what is left is taken off. -/
theorem serving_charged (h : Serving r p ms) {m : Message} (hm : p.refuses m.size = false)
    {now : Nat} (hf : (p.charged m.size now).isFilled = false) :
    Serving r (p.charged m.size now) (ms ++ [m]) := by
  have hpos := h.pos
  have hsum := h.messages
  have hne : p.messages - 1 ≠ 0 := by simpa [WaitingPull.isFilled, WaitingPull.charged] using hf
  refine ⟨Nat.pos_of_ne_zero hne, ?_, fun hb => ?_, fun hb => ?_⟩
  · rw [List.length_append, List.length_singleton, WaitingPull.messages_charged]
    omega
  · obtain ⟨left, hl, hbytes⟩ := h.bytes hb
    have hle : m.size ≤ left := by simpa [WaitingPull.refuses, hl] using hm
    refine ⟨left - m.size, by simp [WaitingPull.bytes_charged, hl], ?_⟩
    rw [weigh_snoc]
    omega
  · simp [WaitingPull.bytes_charged, h.unbudgeted hb]

/-- The last message of a batch fills the pull, whatever became of its bytes. -/
theorem filled_holds (h : Serving r p ms) {m : Message} (hm : p.refuses m.size = false)
    {now : Nat} (hf : (p.charged m.size now).isFilled = true) :
    Standing.filled.Holds r none ((ms ++ [m]).map Mail.message) := by
  have hpos := h.pos
  have hsum := h.messages
  have hz : p.messages - 1 = 0 := by simpa [WaitingPull.isFilled, WaitingPull.charged] using hf
  refine ⟨rfl, ms ++ [m], rfl, ?_, fun hb => ?_⟩
  · rw [List.length_append, List.length_singleton]
    omega
  · obtain ⟨left, hl, hbytes⟩ := h.bytes hb
    have hle : m.size ≤ left := by simpa [WaitingPull.refuses, hl] using hm
    rw [weigh_snoc]
    omega

theorem holds_served (h : Serving r p ms) (hr : r.Fits) {m : Message}
    (hm : p.refuses m.size = false) (now : Nat) :
    ∃ c : Standing, c.Holds r (Fate.served now m p).left (ms.map Mail.message ++
      (Fate.served now m p).mail.filter fun l => !l.isBeat) := by
  have hsnoc : ms.map Mail.message ++ [.message m] = (ms ++ [m]).map Mail.message := by simp
  unfold Fate.served
  dsimp only
  cases hf : (p.charged m.size now).isFilled with
  | true =>
    refine ⟨.filled, ?_⟩
    simp only [Bool.true_or, Bool.not_true, Bool.and_false, Bool.false_eq_true, if_true, if_false]
    exact hsnoc ▸ filled_holds h hm hf
  | false =>
    have hq := serving_charged h hm hf
    cases hs : (p.charged m.size now).isSpent with
    | true =>
      refine ⟨.ended, ?_⟩
      have he := ended_holds hq hr Code.conflict StatusText.batchCompleted
      rw [← hsnoc, List.append_assoc] at he
      exact he
    | false =>
      exact ⟨.waiting, _, _, rfl, hsnoc, hq⟩

/-- Whatever becomes of a waiting pull, it stands somewhere. -/
theorem holds_fate (h : Serving r p ms) (hr : r.Fits) {F : Fate} (hF : Fate.Of p F) :
    ∃ c : Standing, c.Holds r F.left (ms.map Mail.message ++ F.mail.filter fun l => !l.isBeat) := by
  cases hF with
  | stay => exact ⟨.waiting, p, ms, rfl, List.append_nil _, h⟩
  | ended code text => exact ⟨.ended, ended_holds h hr code text⟩
  | beaten t s =>
    exact ⟨.waiting, _, ms, rfl, List.append_nil _, ⟨h.pos, h.messages, h.bytes, h.unbudgeted⟩⟩
  | served now m hm => exact holds_served h hr hm now

end Fates

/-! ## All pulls -/

/-- Every pull whose inbox was not forgotten stands somewhere. -/
def Books.Settled (k : Books) : Prop :=
  ∀ n t, k.tickets[n]? = some t → t.forgotten = false → t.request.Fits →
    ∃ c : Standing, c.Holds t.request (k.pullOf n) (k.mailOf n)

namespace Books

variable {k : Books}

theorem settled_empty : empty.Settled := by
  intro n t ht
  cases ht

theorem settled_settle (h : k.Settled) (ho : k.Orderly) {f : Nat → WaitingPull → Fate}
    (hf : ∀ n p, Fate.Of p (f n p)) : (k.settle f).Settled := by
  intro n t ht hlive hr
  obtain ⟨c, hc⟩ := h n t ht hlive hr
  rw [pullOf_settle ho hf, mailOf_settle ho]
  cases hp : k.pullOf n with
  | none =>
    rw [hp] at hc
    refine ⟨c, ?_⟩
    dsimp only [Option.bind_none, Option.elim_none]
    rw [List.append_nil]
    exact hc
  | some p =>
    rw [hp] at hc
    cases c with
    | refused => exact absurd hc.1 (by simp)
    | filled => exact absurd hc.1 (by simp)
    | ended => exact absurd hc.1 (by simp)
    | waiting =>
      obtain ⟨q, ms, hq, hmail, hs⟩ := hc
      cases hq
      rw [hmail]
      exact holds_fate hs hr (hf n p)

/-- The tickets before a new one are the old ones. -/
theorem ticket_of_issue {n : Nat} {t : Ticket} {inbox : String} {r : PullRequest}
    (ht : (k.issue inbox r).tickets[n]? = some t) :
    k.tickets[n]? = some t ∧ n < k.tickets.length ∨
      n = k.tickets.length ∧ t = ⟨inbox, r, false⟩ := by
  rcases Nat.lt_or_ge n k.tickets.length with hn | hn
  · refine Or.inl ⟨?_, hn⟩
    rwa [issue, List.getElem?_append_left hn] at ht
  · rw [issue, List.getElem?_append_right hn, List.getElem?_singleton] at ht
    split at ht
    · exact Or.inr ⟨by omega, (Option.some.inj ht).symm⟩
    · cases ht

theorem settled_refuse (h : k.Settled) (ho : k.Orderly) (inbox : String) (r : PullRequest)
    (code : Nat) (text : String) : (k.refuse inbox r (refusal r code text)).Settled := by
  intro n t ht hlive hr
  have hmail : ∀ i, (k.refuse inbox r (refusal r code text)).mailOf i =
      k.mailOf i ++ ([Mail.refusal (refusal r code text)].map
        (Letter.mail k.tickets.length inbox)).filterMap (Letter.mailFor? i) :=
    fun i => List.filterMap_append
  rw [hmail]
  show ∃ c : Standing, c.Holds t.request (k.pullOf n) _
  rcases ticket_of_issue ht with ⟨ht, hn⟩ | ⟨rfl, rfl⟩
  · rw [mailFor_of_ne (Nat.ne_of_gt hn), List.append_nil]
    exact h n t ht hlive hr
  · rw [mailFor_self, mailOf_eq_nil fun i m hm => Nat.lt_irrefl _ (ho.mailed _ i m hm),
      pullOf_eq_none fun e he => Nat.ne_of_lt (lt_of_queued ho he)]
    exact ⟨.refused, rfl, _, rfl, Status.pendingCounts_withHeaders hr.batch hr.maxBytes⟩

theorem settled_accept (h : k.Settled) (ho : k.Orderly) (inbox : String) (r : PullRequest)
    (now : Nat) (heartbeats : Bool) :
    (k.accept inbox r (.ofRequest inbox r now heartbeats)).Settled := by
  intro n t ht hlive hr
  have hpull : (k.accept inbox r (.ofRequest inbox r now heartbeats)).pullOf n =
      (k.pullOf n).or (if k.tickets.length = n then some (.ofRequest inbox r now heartbeats)
        else none) := by
    unfold pullOf accept
    dsimp only
    rw [List.find?_append, Option.map_or, List.find?_singleton]
    split <;> simp_all
  rw [hpull]
  show ∃ c : Standing, c.Holds t.request _ (k.mailOf n)
  rcases ticket_of_issue ht with ⟨ht, hn⟩ | ⟨rfl, rfl⟩
  · rw [if_neg (by omega), Option.or_none]
    exact h n t ht hlive hr
  · rw [if_pos rfl, mailOf_eq_nil fun i m hm => Nat.lt_irrefl _ (ho.mailed _ i m hm),
      pullOf_eq_none fun e he => Nat.ne_of_lt (lt_of_queued ho he)]
    exact ⟨.waiting, _, [], rfl, rfl, serving_ofRequest r inbox now heartbeats⟩

theorem ticket_strike {n : Nat} {t : Ticket} {inbox : String} (ht : k.tickets[n]? = some t)
    (hi : t.inbox ≠ inbox) : (k.strike inbox).tickets[n]? = some t := by
  unfold strike
  dsimp only
  rw [List.getElem?_map, ht]
  exact congrArg some (if_neg hi)

theorem ticket_of_strike {n : Nat} {t : Ticket} {inbox : String}
    (ht : (k.strike inbox).tickets[n]? = some t) (hlive : t.forgotten = false) :
    k.tickets[n]? = some t ∧ t.inbox ≠ inbox := by
  unfold strike at ht
  dsimp only at ht
  rw [List.getElem?_map] at ht
  obtain ⟨u, hu, rfl⟩ := Option.map_eq_some_iff.1 ht
  split at hlive
  · cases hlive
  · rename_i hi
    rw [if_neg hi]
    exact ⟨hu, hi⟩

/-- A pull of another inbox waits on. -/
theorem pullOf_strike (ho : k.Orderly) {n : Nat} {t : Ticket} (ht : k.tickets[n]? = some t)
    {inbox : String} (hi : t.inbox ≠ inbox) : (k.strike inbox).pullOf n = k.pullOf n := by
  cases hp : k.pullOf n with
  | none =>
    refine pullOf_eq_none fun e he hn => ?_
    rw [pullOf_eq_some ho (p := e.2) (by rw [← hn]; exact (List.mem_filter.1 he).1)] at hp
    cases hp
  | some p =>
    have hm := mem_of_pullOf hp
    obtain ⟨u, hu, hui, _⟩ := ho.queued _ hm
    have hut : u = t := Option.some.inj (hu.symm.trans ht)
    refine pullOf_eq_some (orderly_strike ho inbox) (List.mem_filter.2 ⟨hm, ?_⟩)
    have hpi : p.inbox ≠ inbox := by
      rw [← hui, hut]
      exact hi
    simpa using hpi

theorem settled_change {b b' : State} {k' : Books} (h : k.Settled) (ho : k.Orderly)
    (hc : Change b k b' k') : k'.Settled := by
  cases hc with
  | rest => exact h
  | published => exact h
  | refused inbox r code text => exact settled_refuse h ho inbox r code text
  | accepted inbox r now heartbeats => exact settled_accept h ho inbox r now heartbeats
  | struck inbox =>
    intro n t ht hlive hr
    obtain ⟨hk, hi⟩ := ticket_of_strike ht hlive
    rw [pullOf_strike ho hk hi]
    exact h n t hk hlive hr
  | injected inbox f =>
    intro n t ht hlive hr
    have hmail : (k.inject inbox f).mailOf n = k.mailOf n := by
      simp [mailOf, inject, Letter.mailFor?]
    rw [hmail]
    exact h n t ht hlive hr
  | timed now => exact settled_settle h ho fun _ p => Fate.of_timed now p
  | ended e he code text =>
    exact settled_settle h ho fun n p => Fate.of_only (fun _ => .ended _ _) _ n p
  | turned now m e =>
    exact settled_settle h ho fun n p => Fate.of_only (Fate.of_offered now m) _ n p
  | served now m e =>
    exact settled_settle h ho fun n p => Fate.of_only (Fate.of_offered now m) _ n p

/-- A ticket is valid until its inbox is forgotten. -/
theorem ticket_change {b b' : State} {k' : Books} (hc : Change b k b' k') {n : Nat} {t : Ticket}
    (ht : k.tickets[n]? = some t) (hk : b'.knows t.inbox = true) : k'.tickets[n]? = some t := by
  cases hc with
  | refused inbox r => exact ticket_issue ht inbox r
  | accepted inbox r => exact ticket_issue ht inbox r
  | struck inbox hf =>
    refine ticket_strike ht fun hi => ?_
    rw [hi, hf] at hk
    cases hk
  | _ => exact ht

end Books

/-! ## Whole runs -/

namespace History

theorem settled_after (l : Limits) (es : List Event) : (after l es).books.Settled :=
  (run_induction (P := fun x => x.books.Settled)
    (fun _ e ht ho hx => Books.settled_change hx ho (next_spec ht ho e).2) es (tied_start l)
    Books.orderly_empty Books.settled_empty).2.2

/-- While an inbox stays registered its tickets stay valid. -/
theorem ticket_run {fs : List Event} {x : History} (hx : x.Tied) (ho : x.books.Orderly) {n : Nat}
    {t : Ticket} (ht : x.books.tickets[n]? = some t)
    (hk : ∀ gs, gs <+: fs → (gs.foldl next x).broker.knows t.inbox = true) :
    (fs.foldl next x).books.tickets[n]? = some t := by
  induction fs generalizing x with
  | nil => exact ht
  | cons e fs ih =>
    obtain ⟨hx', hc⟩ := next_spec hx ho e
    have hke : (x.next e).broker.knows t.inbox = true :=
      hk [e] (List.prefix_append [e] fs)
    refine ih hx' (Books.orderly_change ho hc) (Books.ticket_change hc ht hke) fun gs hgs => ?_
    exact hk (e :: gs) ((List.cons_prefix_cons).2 ⟨rfl, hgs⟩)

/-- A pull on a registered inbox gets the next ticket. -/
theorem ticket_next {x : History} (ha : x.broker.agenda = []) {inbox : String}
    (hk : x.broker.knows inbox = true) (now : Nat) (r : PullRequest) :
    (x.next (.command now (.pull inbox r))).books.tickets[x.books.tickets.length]? =
      some ⟨inbox, r, false⟩ := by
  unfold next Books.write Books.writeCommand
  dsimp only
  rw [ha, if_pos List.isEmpty_nil, if_pos hk]
  cases x.broker.limits.refusal? x.broker.waiting.length r <;>
    simp [Books.refuse, Books.accept, Books.issue]

/-- A pull on a registered inbox stands in exactly one way at any time until its inbox is
forgotten. Its number tells which mail is its own; the books go with the broker's queue and with
what is handed over. -/
theorem settled_once (l : Limits) (es fs : List Event) (now : Nat) (inbox : String)
    (r : PullRequest) (hr : r.Fits) (ha : (after l es).broker.agenda = [])
    (hk : (after l es).broker.knows inbox = true)
    (hs : ∀ gs, gs <+: fs →
      (after l (es ++ .command now (.pull inbox r) :: gs)).broker.knows inbox = true) :
    let n := (after l es).books.tickets.length
    let y := after l (es ++ .command now (.pull inbox r) :: fs)
    y.Tied ∧ ∃! c : Standing, c.Holds r (y.books.pullOf n) (y.books.mailOf n) := by
  intro n y
  obtain ⟨ht, ho⟩ := good_after l es
  obtain ⟨ht', hc⟩ := next_spec ht ho (.command now (.pull inbox r))
  have hfold : ∀ gs, after l (es ++ .command now (.pull inbox r) :: gs) =
      gs.foldl next ((after l es).next (.command now (.pull inbox r))) := fun gs =>
    after_append l es _
  have hticket : y.books.tickets[n]? = some ⟨inbox, r, false⟩ := by
    show (after l _).books.tickets[n]? = _
    rw [hfold]
    exact ticket_run ht' (Books.orderly_change ho hc) (ticket_next ha hk now r) fun gs hgs =>
      hfold gs ▸ hs gs hgs
  obtain ⟨c, hc⟩ := settled_after l _ n _ hticket rfl hr
  refine ⟨(good_after l _).1, c, hc, fun d hd => ?_⟩
  rw [Standing.eq_tell hd, Standing.eq_tell hc]

/-- Two messages at once, or as many as are there. -/
def atOnce : PullRequest := ⟨2, 100, none, none, true, by decide, by decide, by decide⟩

/-- An inbox is registered and a message is published before the pull comes. -/
def stocked : List Event :=
  [.command 0 (.register "a"), .command 0 (.publish (.plain "s" ⟨#[7]⟩)), .chore 0 false]

/-- The pull gets the message, finds no other and is ended. -/
theorem atOnce_settled :
    let fs := List.replicate 5 (Event.chore 1 false)
    let n := (after .default stocked).books.tickets.length
    let y := after .default (stocked ++ .command 1 (.pull "a" atOnce) :: fs)
    atOnce.Fits ∧ (after .default stocked).broker.agenda = [] ∧
      (after .default stocked).broker.knows "a" = true ∧
      (∀ gs, gs <+: fs → (after .default
        (stocked ++ .command 1 (.pull "a" atOnce) :: gs)).broker.knows "a" = true) ∧
      Standing.tell (y.books.pullOf n) (y.books.mailOf n) = .ended ∧
      y.Tied ∧ ∃! c : Standing, c.Holds atOnce (y.books.pullOf n) (y.books.mailOf n) := by
  have hr : atOnce.Fits := ⟨by decide, by decide⟩
  have ha : (after .default stocked).broker.agenda = [] := by decide
  have hk : (after .default stocked).broker.knows "a" = true := by decide
  have hs : ∀ gs, gs <+: List.replicate 5 (Event.chore 1 false) → (after .default
      (stocked ++ .command 1 (.pull "a" atOnce) :: gs)).broker.knows "a" = true := by
    have hall : ∀ gs ∈ (List.replicate 5 (Event.chore 1 false)).inits, (after .default
        (stocked ++ .command 1 (.pull "a" atOnce) :: gs)).broker.knows "a" = true := by decide
    exact fun gs hgs => hall gs ((List.mem_inits gs _).2 hgs)
  exact ⟨hr, ha, hk, hs, by decide, settled_once .default stocked _ 1 "a" atOnce hr ha hk hs⟩

end History

end DemandFlow.Broker
