import DemandFlow.Proofs.Broker.Delivery
import DemandFlow.Proofs.Broker.Settlement
import DemandFlow.Proofs.Broker.Shape

/-
  Which pull gets which message hangs on the order of the pulls and the order of the messages,
  and not on how the two come together. A pull without byte budget and expiry that waits for its
  messages has a share of the stream: as many messages as it asked for, after the shares of all
  pulls before it. At any time the numbers handed out so far, followed by what the queue still
  asks for, are all shares in order (`Uncut`), and the broker rests only when it is out of
  messages or out of pulls.
-/

namespace DemandFlow.Broker

/-! ## Shares -/

/-- Numbers from `n` on, each repeated as often as its size says. -/
def shares (n : Nat) : List Nat → List Nat
  | [] => []
  | size :: sizes => List.replicate size n ++ shares (n + 1) sizes

theorem shares_snoc (n : Nat) (sizes : List Nat) (size : Nat) :
    shares n (sizes ++ [size]) = shares n sizes ++ List.replicate size (n + sizes.length) := by
  induction sizes generalizing n with
  | nil => simp [shares]
  | cons s sizes ih =>
    rw [List.cons_append, shares, ih, shares, List.append_assoc, List.length_cons]
    simp only [Nat.add_assoc, Nat.add_comm 1]

theorem length_shares (n : Nat) (sizes : List Nat) : (shares n sizes).length = sizes.sum := by
  induction sizes generalizing n with
  | nil => rfl
  | cons s sizes ih => simp [shares, ih]

theorem le_of_mem_shares {n k : Nat} {sizes : List Nat} (h : k ∈ shares n sizes) : n ≤ k := by
  induction sizes generalizing n with
  | nil => cases h
  | cons s sizes ih =>
    rcases List.mem_append.1 h with h | h
    · exact Nat.le_of_eq (List.mem_replicate.1 h).2.symm
    · exact Nat.le_of_succ_le (ih h)

section Zip

variable {α β : Type}

/-- What stands beside a number in a list of numbered things. -/
def beside (n : Nat) (as : List (Nat × α)) : List α :=
  as.filterMap fun a => if a.1 = n then some a.2 else none

theorem beside_cons (n : Nat) (a : Nat × α) (as : List (Nat × α)) :
    beside n (a :: as) = if a.1 = n then a.2 :: beside n as else beside n as := by
  unfold beside
  rw [List.filterMap_cons]
  split <;> simp_all

theorem beside_append (n : Nat) (as bs : List (Nat × α)) :
    beside n (as ++ bs) = beside n as ++ beside n bs := List.filterMap_append

theorem beside_eq_nil {n : Nat} {as : List (Nat × α)} (h : ∀ a ∈ as, a.1 ≠ n) :
    beside n as = [] :=
  List.filterMap_eq_nil_iff.2 fun a ha => if_neg (h a ha)

theorem zip_append_left (xs ys : List α) (ms : List β) :
    (xs ++ ys).zip ms = xs.zip (ms.take xs.length) ++ ys.zip (ms.drop xs.length) := by
  induction xs generalizing ms with
  | nil => simp
  | cons x xs ih =>
    cases ms with
    | nil => simp
    | cons m ms => simp [ih]

theorem beside_replicate (n size : Nat) (ms : List α) (h : ms.length ≤ size) :
    beside n ((List.replicate size n).zip ms) = ms := by
  induction ms generalizing size with
  | nil => simp [beside]
  | cons m ms ih =>
    obtain ⟨size, rfl⟩ :=
      Nat.exists_eq_add_of_le' (Nat.le_trans (Nat.succ_le_succ (Nat.zero_le _)) h)
    have hle : ms.length ≤ size := Nat.le_of_succ_le_succ h
    rw [List.replicate_succ, List.zip_cons_cons, beside_cons, if_pos rfl, ih size hle]

/-- The share of a number starts where the shares before it end. -/
theorem beside_shares (n j : Nat) (sizes : List Nat) (ms : List α) :
    beside (n + j) ((shares n sizes).zip ms) =
      (ms.drop (sizes.take j).sum).take (sizes.getD j 0) := by
  induction sizes generalizing n j ms with
  | nil => simp [shares, beside]
  | cons s sizes ih =>
    rw [shares, zip_append_left, beside_append, List.length_replicate]
    cases j with
    | zero =>
      rw [Nat.add_zero, beside_replicate n s _ (List.length_take_le _ _), beside_eq_nil]
      · simp
      · intro a ha
        have := le_of_mem_shares (List.of_mem_zip ha).1
        omega
    | succ j =>
      rw [beside_eq_nil, List.nil_append, show n + (j + 1) = n + 1 + j by omega, ih, List.drop_drop]
      · simp
      · intro a ha
        have := (List.mem_replicate.1 (List.of_mem_zip ha).1).2
        omega

end Zip

/-! ## Shares in the books -/

namespace Books

/-- The number of each pull, once for every message that it asked for. -/
def slots (k : Books) : List Nat := shares 0 (k.tickets.map fun t => t.request.batch)

/-- The number of each pull in the queue, once for every message that it still asks for. -/
def owing (k : Books) : List Nat := k.queue.flatMap fun e => List.replicate e.2.messages e.1

variable {k : Books}

theorem slots_issue (inbox : String) (r : PullRequest) (k : Books) :
    (k.issue inbox r).slots = k.slots ++ List.replicate r.batch k.tickets.length := by
  unfold slots issue
  rw [List.map_append, List.map_singleton, shares_snoc, List.length_map, Nat.zero_add]

theorem owing_accept (inbox : String) (r : PullRequest) (p : WaitingPull) (k : Books) :
    (k.accept inbox r p).owing = k.owing ++ List.replicate p.messages k.tickets.length := by
  unfold owing accept
  rw [List.flatMap_append, List.flatMap_singleton]

/-- What is still asked for stays where all pulls stay with their counts. -/
theorem owing_settle {f : Nat → WaitingPull → Fate}
    (h : ∀ e ∈ k.queue, ∃ q, (f e.1 e.2).left = some q ∧ q.messages = e.2.messages) :
    (k.settle f).owing = k.owing := by
  unfold owing settle
  dsimp only
  revert h
  induction k.queue with
  | nil => exact fun _ => rfl
  | cons e es ih =>
    intro h
    obtain ⟨q, hq, hm⟩ := h e List.mem_cons_self
    rw [List.filterMap_cons_some (b := (e.1, q)) (by rw [hq]; rfl), List.flatMap_cons,
      List.flatMap_cons, hm, ih fun d hd => h d (List.mem_cons_of_mem _ hd)]

/-- The mail of a pull is what was handed out for it, where nobody was refused or ended. -/
theorem mailOf_eq_handed {n : Nat}
    (h : ∀ l ∈ k.letters, ∃ i inbox m, l = .mail i inbox m ∧
      (m.isBeat = true ∨ ∃ msg, m = .message msg)) :
    k.mailOf n = (beside n k.handed).map Mail.message := by
  unfold mailOf handed
  revert h
  induction k.letters with
  | nil => exact fun _ => rfl
  | cons l ls ih =>
    intro h
    obtain ⟨i, inbox, m, rfl, hm⟩ := h l List.mem_cons_self
    have hls := ih fun l hl => h l (List.mem_cons_of_mem _ hl)
    rcases hm with hb | ⟨msg, rfl⟩
    · rw [List.filterMap_cons_none (by simp [Letter.mailFor?, hb]), hls,
        List.filterMap_cons_none (by cases m <;> first | rfl | cases hb)]
    · have hh : (Letter.mail i inbox (.message msg)).handed? = some (i, msg) := rfl
      rw [List.filterMap_cons, hls, List.filterMap_cons_some hh, beside_cons]
      by_cases hi : i = n <;> simp [Letter.mailFor?, Mail.isBeat, hi]

end Books

/-! ## Pulls that only wait for messages -/

/-- The request waits for all of its messages, however long it takes and whatever they weigh. -/
structure Patient (r : PullRequest) : Prop where
  maxBytes : r.maxBytes = 0
  expires : r.expires = none
  noWait : r.noWait = false

/-- The pull neither runs out of bytes nor expires. -/
structure WaitingPull.Endless (p : WaitingPull) : Prop where
  bytes : p.bytes = none
  expiresAt : p.expiresAt = none

theorem Patient.endless {r : PullRequest} (h : Patient r) (inbox : String) (now : Nat)
    (heartbeats : Bool) : (WaitingPull.ofRequest inbox r now heartbeats).Endless := by
  refine ⟨?_, ?_⟩
  · exact if_neg (by rw [h.maxBytes]; exact Nat.lt_irrefl 0)
  · show r.expires.map _ = none
    rw [h.expires]
    rfl

/-- The timers can only make an endless pull beat. -/
theorem WaitingPull.Endless.timed {p : WaitingPull} (h : p.Endless) (now : Nat) :
    ∃ t mail, Fate.timed now p = ⟨some { p with beatsAt := t }, mail⟩ ∧
      ∀ m ∈ mail, m.isBeat = true := by
  unfold Fate.timed
  rcases State.due_cases now p with ⟨_, t, ht, _⟩ | ⟨t, he⟩ | he
  · rw [h.expiresAt] at ht
    cases ht
  · rw [he]
    exact ⟨some t, _, rfl, fun m hm => by rw [List.mem_singleton.1 hm]; rfl⟩
  · rw [he]
    exact ⟨p.beatsAt, [], rfl, fun m hm => absurd hm List.not_mem_nil⟩

/-- The letter brings a message or a heartbeat to the inbox of its pull. -/
def Letter.Brings (tickets : List Ticket) (l : Letter) : Prop :=
  ∃ n t m, l = .mail n t.inbox m ∧ tickets[n]? = some t ∧
    (m.isBeat = true ∨ ∃ msg, m = .message msg)

theorem Letter.Brings.issue {k : Books} {l : Letter} (h : l.Brings k.tickets) (inbox : String)
    (r : PullRequest) : l.Brings (k.issue inbox r).tickets := by
  obtain ⟨n, t, m, hl, ht, hm⟩ := h
  exact ⟨n, t, m, hl, Books.ticket_issue ht inbox r, hm⟩

/-- A history in which no pull was cut short: what was handed out and what is still asked for
are the shares of all pulls, in order. -/
structure Uncut (x : History) : Prop where
  limits : x.broker.limits.Unlimited
  endless : ∀ e ∈ x.books.queue, e.2.Endless
  chores : ∀ inbox, Chore.endNoWait inbox ∉ x.broker.agenda
  letters : ∀ l ∈ x.books.letters, l.Brings x.books.tickets
  shares : x.books.handed.map Prod.fst ++ x.books.owing = x.books.slots

namespace Uncut

variable {x : History} {now : Nat}

theorem start {l : Limits} (hl : l.Unlimited) : Uncut (.start l) := by
  refine ⟨hl, ?_, ?_, ?_, rfl⟩ <;> simp [History.start, Books.empty, State.start]

/-- Where the books stay, only the new chores matter. -/
theorem of_same (h : Uncut x) {y : History} (hl : y.broker.limits = x.broker.limits)
    (hk : y.books = x.books) (ha : ∀ inbox, Chore.endNoWait inbox ∉ y.broker.agenda) : Uncut y := by
  refine ⟨by rw [hl]; exact h.limits, ?_, ha, ?_, ?_⟩ <;> rw [hk]
  · exact h.endless
  · exact h.letters
  · exact h.shares

theorem publish (h : Uncut x) (m : Message) : Uncut (x.next (.command now (.publish m))) := by
  refine h.of_same (State.limits_react _ _) ?_ fun inbox => ?_
  · simp [History.next, Books.write, Books.writeCommand]
  · simp only [History.next, State.react]
    split
    · simpa [State.accept, State.first] using h.chores inbox
    · exact h.chores inbox

theorem register (h : Uncut x) (inbox : String) :
    Uncut (x.next (.command now (.register inbox))) := by
  refine h.of_same (State.limits_react _ _) ?_ fun inbox => ?_
  · simp [History.next, Books.write, Books.writeCommand]
  · simp only [History.next, State.react]
    split <;> exact h.chores inbox

/-- A pull that is taken on gets the next share. -/
theorem pull (h : Uncut x) (ha : x.broker.agenda = []) {inbox : String}
    (hk : x.broker.knows inbox = true) {r : PullRequest} (hr : Patient r) :
    Uncut (x.next (.command now (.pull inbox r))) := by
  have hf := Limits.refusal?_of_unlimited h.limits hr.noWait x.broker.waiting.length
  have hb : (x.next (.command now (.pull inbox r))).broker = x.broker.request now inbox r :=
    if_pos (by rw [ha]; rfl)
  have hw : (x.next (.command now (.pull inbox r))).books =
      x.books.accept inbox r (.ofRequest inbox r now x.broker.limits.heartbeats) := by
    simp [History.next, Books.write, Books.writeCommand, ha, hk, hf]
  refine ⟨by rw [History.next, State.limits_react]; exact h.limits, ?_, fun i => ?_, ?_, ?_⟩
  · intro e he
    rw [hw] at he
    rcases List.mem_append.1 he with he | he
    · exact h.endless e he
    · rw [List.mem_singleton.1 he]
      exact hr.endless inbox now _
  · rw [hb]
    rcases State.request_cases now inbox r x.broker with ⟨hn, _⟩ | ⟨s, _, hs, _⟩ | ⟨_, _, he⟩
    · rw [hk] at hn
      cases hn
    · rw [hf] at hs
      cases hs
    · rw [he]
      simp [State.first, ha, hr.noWait]
  · rw [hw]
    exact fun l hl => (h.letters l hl).issue inbox r
  · rw [hw, Books.owing_accept]
    show x.books.handed.map Prod.fst ++ (x.books.owing ++ List.replicate r.batch _) =
      (x.books.issue inbox r).slots
    rw [← List.append_assoc, h.shares, Books.slots_issue]

/-- Heartbeats take no part of any share. -/
theorem timers (h : Uncut x) (ho : x.books.Orderly) : Uncut (x.next (.timers now)) := by
  by_cases ha : x.broker.agenda.isEmpty = true
  · have hw : (x.next (.timers now)).books = x.books.settle fun _ p => Fate.timed now p :=
      if_pos ha
    have hb : (x.next (.timers now)).broker = x.broker.fireTimers now := if_pos ha
    have hq : ∀ e ∈ x.books.queue,
        ∃ t, (Fate.timed now e.2).left = some { e.2 with beatsAt := t } :=
      fun e he => by
        obtain ⟨t, mail, ht, _⟩ := (h.endless e he).timed now
        exact ⟨t, by rw [ht]⟩
    refine ⟨by rw [History.next, State.limits_react]; exact h.limits, ?_, fun inbox => ?_, ?_, ?_⟩
    · intro e he
      rw [hw] at he
      obtain ⟨p, hp, hl⟩ := Books.mem_settle he
      obtain ⟨t, ht⟩ := hq _ hp
      rw [ht] at hl
      rw [← Option.some.inj hl]
      exact ⟨(h.endless _ hp).bytes, (h.endless _ hp).expiresAt⟩
    · rw [hb]
      simp [State.fireTimers, State.first, List.isEmpty_iff.1 ha]
    · rw [hw]
      intro l hl
      rcases List.mem_append.1 hl with hl | hl
      · exact h.letters l hl
      · obtain ⟨e, he, hle⟩ := List.mem_flatMap.1 hl
        obtain ⟨m, hm, rfl⟩ := List.mem_map.1 hle
        obtain ⟨t, mail, ht, hbeat⟩ := (h.endless e he).timed now
        have hm' : m ∈ (Fate.timed now e.2).mail := hm
        rw [ht] at hm'
        obtain ⟨ticket, hticket, hi, _⟩ := ho.queued e he
        exact ⟨e.1, ticket, m, by rw [hi], hticket, Or.inl (hbeat m hm')⟩
    · rw [hw, Books.handed_settle fun _ p => Fate.timed_hands_none now p,
        Books.owing_settle fun e he =>
          (hq e he).imp' (fun t => { e.2 with beatsAt := t }) fun _ ht => ⟨ht, rfl⟩]
      exact h.shares
  · have hw : (x.next (.timers now)).books = x.books := if_neg ha
    have hb : (x.next (.timers now)).broker = x.broker := if_neg ha
    exact h.of_same (by rw [hb]) hw (by rw [hb]; exact h.chores)

/-- The first in the queue takes the next message of its share. -/
theorem serve (h : Uncut x) (ho : x.books.Orderly) {e : Nat × WaitingPull}
    {rest : List (Nat × WaitingPull)} (hq : x.books.queue = e :: rest) (hpos : 0 < e.2.messages)
    (now : Nat) (m : Message) :
    let k := x.books.settle (Fate.only e.1 (Fate.offered now m))
    (∀ d ∈ k.queue, d.2.Endless) ∧ (∀ l ∈ k.letters, l.Brings k.tickets) ∧
      k.handed.map Prod.fst ++ k.owing = k.slots := by
  intro k
  have he : e ∈ x.books.queue := by rw [hq]; exact List.mem_cons_self
  have hend := h.endless e he
  have hr : e.2.refuses m.size = false := by
    unfold WaitingPull.refuses
    rw [hend.bytes]
  have hspent : (e.2.charged m.size now).isSpent = false := by
    unfold WaitingPull.isSpent
    rw [WaitingPull.bytes_charged, hend.bytes]
    rfl
  have hf : Fate.offered now m e.2 =
      ⟨if (e.2.charged m.size now).isFilled then none else some (e.2.charged m.size now),
        [.message m]⟩ := by
    rw [show Fate.offered now m e.2 = Fate.served now m e.2 from if_neg (by simp [hr])]
    unfold Fate.served
    dsimp only
    rw [hspent, Bool.or_false]
    rfl
  obtain ⟨hqueue, hletters⟩ := Books.settle_only (f := Fate.offered now m) ho
    (show x.books.queue = [] ++ (e.1, e.2) :: rest from hq)
  rw [hf] at hqueue hletters
  rw [List.nil_append] at hqueue
  have hrest : ∀ d ∈ rest, d ∈ x.books.queue := fun d hd => by
    rw [hq]
    exact List.mem_cons_of_mem _ hd
  refine ⟨fun d hd => ?_, fun l hl => ?_, ?_⟩
  · rw [hqueue] at hd
    rcases List.mem_append.1 hd with hd | hd
    · split at hd
      · cases hd
      · rw [List.mem_singleton.1 hd]
        exact ⟨by rw [WaitingPull.bytes_charged, hend.bytes]; rfl, hend.expiresAt⟩
    · exact h.endless d (hrest d hd)
  · rw [hletters] at hl
    rcases List.mem_append.1 hl with hl | hl
    · exact h.letters l hl
    · obtain ⟨t, ht, hi, _⟩ := ho.queued e he
      exact ⟨e.1, t, .message m, by rw [hi]; exact List.mem_singleton.1 hl, ht, Or.inr ⟨m, rfl⟩⟩
  · have hone : x.books.owing =
        [e.1] ++ (List.replicate (e.2.messages - 1) e.1 ++
          rest.flatMap fun d => List.replicate d.2.messages d.1) := by
      unfold Books.owing
      obtain ⟨n, hn⟩ := Nat.exists_eq_add_of_le' hpos
      rw [hq, List.flatMap_cons, hn]
      rfl
    have hleft : k.owing = List.replicate (e.2.messages - 1) e.1 ++
        rest.flatMap fun d => List.replicate d.2.messages d.1 := by
      show k.queue.flatMap _ = _
      rw [hqueue, List.flatMap_append]
      refine congrArg (· ++ _) ?_
      cases hfill : (e.2.charged m.size now).isFilled with
      | false => simp [WaitingPull.messages_charged]
      | true =>
        have : e.2.messages - 1 = 0 := by
          simpa [WaitingPull.isFilled, WaitingPull.messages_charged] using hfill
        simp [this]
    rw [Books.handed_offered ho he hr, List.map_append, hleft]
    have hs := h.shares
    rw [hone, ← List.append_assoc] at hs
    exact hs

/-- With every feed open, no chore cuts a pull short. -/
theorem chore (h : Uncut x) (ht : x.Tied) (ho : x.books.Orderly) (hs : x.broker.Shaped) :
    Uncut (x.next (.chore now false)) := by
  have hlim : (x.next (.chore now false)).broker.limits = x.broker.limits :=
    State.limits_react _ _
  rcases State.work_cases now x.broker with ⟨ha, _⟩ | ⟨inbox, f, rest, ha, he⟩ | ⟨rest, ha, he⟩ |
    ⟨inbox, rest, ha, _⟩
  · refine h.of_same hlim ?_ ?_
    · simp [History.next, Books.write, Books.writeChore, ha]
    · rw [History.next, State.react_chore_of_rest ha]
      exact h.chores
  · refine h.of_same hlim ?_ fun i hi => h.chores i ?_
    · simp [History.next, Books.write, Books.writeChore, ha]
    · simp only [History.next, State.react, he, State.told, Bool.false_and, Bool.false_eq_true,
        if_false] at hi
      rw [ha]
      exact List.mem_cons_of_mem _ hi
  · have hr : ∀ i, Chore.endNoWait i ∉ rest := fun i hi =>
      h.chores i (by rw [ha]; exact List.mem_cons_of_mem _ hi)
    have hb : (x.next (.chore now false)).broker =
        ({ x.broker with agenda := rest } : State).handOut now := by
      simp only [History.next, State.react, he]
    have hq := ht.queue
    rcases State.handOut_cases now { x.broker with agenda := rest } with ⟨hh, hidle⟩ |
      ⟨m, p, ps, hm, hw, hrf, _⟩ | ⟨m, p, ps, hm, hw, hrf, hh⟩
    · refine h.of_same hlim ?_ (by rw [hb, hh]; exact hr)
      simp only [History.next, Books.write, Books.writeChore, ha]
      rcases hidle with hend | hnone
      · simp [Array.getElem?_eq_none hend]
      · have : x.books.queue = [] := List.map_eq_nil_iff.1 (hq.trans hnone)
        simp [this]
    all_goals
      obtain ⟨e, es, hes, rfl, rfl⟩ := List.map_eq_cons_iff.1 (hq.trans hw)
    · -- an endless pull refuses nothing
      have hend := h.endless e (by rw [hes]; exact List.mem_cons_self)
      unfold WaitingPull.refuses at hrf
      rw [hend.bytes] at hrf
      cases hrf
    · have hk : (x.next (.chore now false)).books =
          x.books.settle (Fate.only e.1 (Fate.offered now m)) := by
        simp only [History.next, Books.write, Books.writeChore, ha, hes,
          show x.broker.stream[x.broker.cursor]? = some m from hm]
      have hwait : x.broker.waiting = e.2 :: es.map Prod.snd := hw
      have hpos : 0 < e.2.messages :=
        (hs.expects e.2 (by rw [hwait]; exact List.mem_cons_self)).1.messages
      obtain ⟨hq', hl', hs'⟩ := h.serve ho hes hpos now m
      refine ⟨by rw [hlim]; exact h.limits, by rw [hk]; exact hq', fun i hi => ?_,
        by rw [hk]; exact hl', by rw [hk]; exact hs'⟩
      rw [hb, hh] at hi
      rcases List.mem_append.1 hi with hi | hi
      · unfold State.handed at hi
        split at hi <;> simp at hi
      · exact hr i hi
  · exact absurd (by rw [ha]; exact List.mem_cons_self) (h.chores inbox)

/-- At rest the messages went to the shares one by one. -/
theorem handed_at_rest (h : Uncut x) (hi : InOrder x.broker x.books) (ht : x.Tied)
    (hs : x.broker.Shaped) (ha : x.broker.agenda = []) :
    x.books.handed = x.books.slots.zip x.broker.stream.toList := by
  have hlen : (x.books.handed.map Prod.fst).length = (x.books.handed.map Prod.snd).length := by
    rw [List.length_map, List.length_map]
  have hnone : x.books.owing.zip (x.broker.stream.toList.drop x.broker.cursor) = [] := by
    rcases (hs.at_rest ha).1 with hw | hc
    · have hq : x.books.queue = [] := List.map_eq_nil_iff.1 (ht.queue.trans hw)
      simp [Books.owing, hq]
    · simp [hc]
  have hzip : (x.books.handed.map Prod.fst).zip (x.books.handed.map Prod.snd) = x.books.handed := by
    have := List.zip_unzip x.books.handed
    rwa [List.unzip_eq_map] at this
  calc x.books.handed
      = (x.books.handed.map Prod.fst).zip (x.books.handed.map Prod.snd) := hzip.symm
    _ = (x.books.handed.map Prod.fst ++ x.books.owing).zip
          (x.books.handed.map Prod.snd ++ x.broker.stream.toList.drop x.broker.cursor) := by
        rw [List.zip_append hlen, hnone, List.append_nil]
    _ = x.books.slots.zip x.broker.stream.toList := by
        rw [h.shares, hi.taken, List.take_append_drop]

end Uncut

/-! ## Scripts -/

/-- What a broker is asked for: to store a message, to take on a pull, to look at its timers. -/
inductive Ask where
  | publish (m : Message)
  | pull (inbox : String) (r : PullRequest)
  | look

namespace Ask

def event (now : Nat) : Ask → Event
  | .publish m => .command now (.publish m)
  | .pull inbox r => .command now (.pull inbox r)
  | .look => .timers now

def pull? : Ask → Option (String × PullRequest)
  | .pull inbox r => some (inbox, r)
  | .publish _ | .look => none

def message? : Ask → Option Message
  | .publish m => some m
  | .pull _ _ | .look => none

end Ask

/-- Something that a broker is asked for, the instant at which it is taken in, and the instants
at which the chores that come of it are done. -/
structure Turn where
  ask : Ask
  taken : Nat
  clock : Nat → Nat

/-- The pulls of a script, in order. -/
def pullsOf (ts : List Turn) : List (String × PullRequest) := ts.filterMap fun t => t.ask.pull?

/-- The messages of a script, in order. -/
def storedBy (ts : List Turn) : List Message := ts.filterMap fun t => t.ask.message?

namespace History

/-- A broker at which these inboxes are registered. -/
def opened (l : Limits) (names : List String) : History :=
  (names.map fun inbox => Event.command 0 (.register inbox)).foldl next (start l)

/-- All chores are done, with every feed open. -/
def finish (clock : Nat → Nat) (x : History) : History :=
  ((List.range x.broker.burden).map fun i => Event.chore (clock i) false).foldl next x

/-- What is asked for is taken in, and all that comes of it is done. -/
def answer (x : History) (t : Turn) : History :=
  (x.next (t.ask.event t.taken)).finish t.clock

theorem agenda_finish (clock : Nat → Nat) (x : History) : (x.finish clock).broker.agenda = [] := by
  have h := State.agenda_of_chores ((List.range x.broker.burden).map fun i => (clock i, false))
    (b := x.broker) (by simp)
  rw [List.foldl_map] at h
  unfold finish
  rw [broker_foldl, List.foldl_map]
  exact h

/-- With every feed open a chore leaves the tickets, the stream and the inboxes alone. -/
theorem chore_keeps (x : History) (now : Nat) :
    (x.next (.chore now false)).books.tickets = x.books.tickets ∧
      (x.next (.chore now false)).broker.stream = x.broker.stream ∧
      (x.next (.chore now false)).broker.inboxes = x.broker.inboxes := by
  have hb : (x.next (.chore now false)).broker = (x.broker.work now).1 := by
    simp only [next, State.react, State.told, Bool.false_and, Bool.false_eq_true, if_false]
    split <;> (rename_i h; rw [h])
  refine ⟨?_, ?_, by rw [hb, State.inboxes_work]⟩
  · simp only [next, Books.write, Books.writeChore, Bool.false_and, Bool.false_eq_true, if_false]
    repeat' split
    all_goals rfl
  · rw [hb]
    rcases State.work_cases now x.broker with ⟨_, he⟩ | ⟨inbox, f, rest, _, he⟩ | ⟨rest, _, he⟩ |
      ⟨inbox, rest, _, he⟩ <;> rw [he]
    · exact State.stream_handOut now _
    · rcases State.endNoWait_cases inbox { x.broker with agenda := rest } with ⟨ho, _⟩ |
        ⟨p, xs, ys, _, _, _, ho⟩
      · rw [ho]
      · rw [ho]
        rfl

end History

/-- How a broker stands that was asked for these pulls and these messages. -/
structure Answered (names : List String) (ps : List (String × PullRequest)) (ms : List Message)
    (x : History) : Prop where
  tied : x.Tied
  orderly : x.books.Orderly
  inOrder : InOrder x.broker x.books
  shaped : x.broker.Shaped
  uncut : Uncut x
  known : ∀ inbox ∈ names, x.broker.knows inbox = true
  tickets : x.books.tickets.map (fun t => (t.inbox, t.request)) = ps
  stored : x.broker.stream.toList = ms

namespace Answered

open History

variable {names : List String} {ps : List (String × PullRequest)} {ms : List Message} {x : History}

/-- What holds of every history need not be asked of an event again. -/
theorem next (h : Answered names ps ms x) {e : Event} (hu : Uncut (x.next e))
    (hi : (x.next e).broker.inboxes = x.broker.inboxes) {qs : List (String × PullRequest)}
    {ns : List Message}
    (ht : (x.next e).books.tickets.map (fun t => (t.inbox, t.request)) = qs)
    (hs : (x.next e).broker.stream.toList = ns) : Answered names qs ns (x.next e) := by
  obtain ⟨htied, hc⟩ := next_spec h.tied h.orderly e
  refine ⟨htied, Books.orderly_change h.orderly hc, inOrder_change h.inOrder h.orderly hc,
    h.shaped.react e, hu, fun inbox hm => ?_, ht, hs⟩
  have := h.known inbox hm
  unfold State.knows at this ⊢
  rwa [hi]

theorem chore (h : Answered names ps ms x) (now : Nat) :
    Answered names ps ms (x.next (.chore now false)) := by
  obtain ⟨ht, hs, hi⟩ := chore_keeps x now
  exact h.next (h.uncut.chore h.tied h.orderly h.shaped) hi (by rw [ht]; exact h.tickets)
    (by rw [hs]; exact h.stored)

theorem finish (h : Answered names ps ms x) (clock : Nat → Nat) :
    Answered names ps ms (x.finish clock) := by
  unfold History.finish
  generalize List.range x.broker.burden = is
  induction is generalizing x with
  | nil => exact h
  | cons i is ih => exact ih (h.chore (clock i))

/-- One more thing is asked for, of a broker at rest. -/
theorem answer (h : Answered names ps ms x) (ha : x.broker.agenda = []) (t : Turn)
    (hp : ∀ p, t.ask.pull? = some p → p.1 ∈ names ∧ Patient p.2) :
    Answered names (ps ++ t.ask.pull?.toList) (ms ++ t.ask.message?.toList) (x.answer t) := by
  obtain ⟨ask, now, clock⟩ := t
  refine finish ?_ clock
  cases ask with
  | publish m =>
    refine h.next (h.uncut.publish m) ?_ ?_ ?_
    · simp [History.next, State.react, ha, State.accept, State.first]
    · simpa [History.next, Books.write, ha, Books.writeCommand, Ask.pull?] using h.tickets
    · simp [History.next, State.react, ha, State.accept, State.first, h.stored,
        Ask.message?]
  | pull inbox r =>
    obtain ⟨hn, hr⟩ := hp (inbox, r) rfl
    have hk := h.known inbox hn
    refine h.next (h.uncut.pull ha hk hr) ?_ ?_ ?_
    · simp only [History.next, State.react, ha, State.accept]
      rcases State.request_cases now inbox r x.broker with ⟨_, he⟩ | ⟨s, _, _, he⟩ | ⟨_, _, he⟩ <;>
        rw [List.isEmpty_nil, if_pos rfl, he] <;> rfl
    · have hf := Limits.refusal?_of_unlimited h.uncut.limits hr.noWait x.broker.waiting.length
      simp [History.next, Books.write, ha, Books.writeCommand, hk, hf, Books.accept,
        Books.issue, Ask.pull?, h.tickets]
    · simp only [History.next, State.react, ha, State.accept, Ask.message?]
      rcases State.request_cases now inbox r x.broker with ⟨_, he⟩ | ⟨s, _, _, he⟩ | ⟨_, _, he⟩ <;>
        rw [List.isEmpty_nil, if_pos rfl, he] <;> simpa [State.first] using h.stored
  | look =>
    refine h.next (h.uncut.timers h.orderly) ?_ ?_ ?_
    · simp [History.next, State.react, ha, State.fireTimers, State.first]
    · simpa [History.next, Books.write, ha, Books.settle, Ask.pull?] using h.tickets
    · simpa [History.next, State.react, ha, State.fireTimers, State.first, Ask.message?]
        using h.stored

/-- One more inbox is registered at a broker at rest. -/
theorem register (h : Answered names ps ms x) (ha : x.broker.agenda = []) (now : Nat)
    (inbox : String) :
    Answered (names ++ [inbox]) ps ms (x.next (.command now (.register inbox))) := by
  obtain ⟨htied, hc⟩ := next_spec h.tied h.orderly (.command now (.register inbox))
  have hb : (x.next (.command now (.register inbox))).broker =
      { x.broker with inboxes := inbox :: x.broker.inboxes.filter (· != inbox) } :=
    if_pos (by rw [ha]; rfl)
  have hw : (x.next (.command now (.register inbox))).books = x.books := if_pos (by rw [ha]; rfl)
  refine ⟨htied, Books.orderly_change h.orderly hc, inOrder_change h.inOrder h.orderly hc,
    h.shaped.react (.command now (.register inbox)), h.uncut.register inbox, fun i hi => ?_,
    by rw [hw]; exact h.tickets, by rw [hb]; exact h.stored⟩
  rw [hb]
  simp only [State.knows, List.contains_iff_mem, List.mem_cons, List.mem_filter, bne_iff_ne]
  rcases List.mem_append.1 hi with hi | hi
  · have hk := h.known i hi
    simp only [State.knows, List.contains_iff_mem] at hk
    exact Decidable.or_iff_not_imp_left.2 fun hne => ⟨hk, hne⟩
  · exact Or.inl (List.mem_singleton.1 hi)

theorem opened {l : Limits} (hl : l.Unlimited) (names : List String) :
    Answered names [] [] (opened l names) ∧ (History.opened l names).broker.agenda = [] := by
  suffices h : ∀ known x, Answered known [] [] x → x.broker.agenda = [] →
      Answered (known ++ names) [] []
          ((names.map fun inbox => Event.command 0 (.register inbox)).foldl History.next x) ∧
        ((names.map fun inbox => Event.command 0 (.register inbox)).foldl History.next
          x).broker.agenda = [] from
    h [] (.start l) ⟨tied_start l, Books.orderly_empty, inOrder_start l, State.shaped_start l,
      Uncut.start hl, fun _ hm => absurd hm List.not_mem_nil, rfl, rfl⟩ rfl
  induction names with
  | nil => exact fun known x h ha => ⟨by rw [List.append_nil]; exact h, ha⟩
  | cons inbox names ih =>
    intro known x h ha
    have hb : (x.next (.command 0 (.register inbox))).broker.agenda = [] := by
      simp [History.next, State.react, ha, State.accept]
    rw [List.append_cons]
    exact ih _ _ (h.register ha 0 inbox) hb

/-- A script is answered to its end. -/
theorem run (h : Answered names ps ms x) (ha : x.broker.agenda = []) (ts : List Turn)
    (hp : ∀ p ∈ pullsOf ts, p.1 ∈ names ∧ Patient p.2) :
    Answered names (ps ++ pullsOf ts) (ms ++ storedBy ts) (ts.foldl History.answer x) ∧
      (ts.foldl History.answer x).broker.agenda = [] := by
  induction ts generalizing x ps ms with
  | nil => exact ⟨by simpa [pullsOf, storedBy] using h, ha⟩
  | cons t ts ih =>
    have hps : pullsOf (t :: ts) = t.ask.pull?.toList ++ pullsOf ts := by
      unfold pullsOf
      rw [List.filterMap_cons]
      cases t.ask.pull? <;> rfl
    have hms : storedBy (t :: ts) = t.ask.message?.toList ++ storedBy ts := by
      unfold storedBy
      rw [List.filterMap_cons]
      cases t.ask.message? <;> rfl
    rw [hps] at hp
    rw [hps, hms, ← List.append_assoc, ← List.append_assoc]
    refine ih (h.answer ha t fun p hm => hp p ?_) (agenda_finish _ _) fun p hm =>
      hp p (List.mem_append_right _ hm)
    exact List.mem_append_left _ (by rw [hm]; exact List.mem_cons_self)

end Answered

/-! ## Whole scripts -/

/-- The end of a share: at the end of the stream, or where the next share begins. -/
theorem share_eq_extract (ms : List Message) (sizes : List Nat) (j : Nat) :
    (ms.drop (sizes.take j).sum).take (sizes.getD j 0) =
      ms.extract (sizes.take j).sum (min (sizes.take (j + 1)).sum ms.length) := by
  have hsum : (sizes.take (j + 1)).sum = (sizes.take j).sum + sizes.getD j 0 := by
    rw [List.take_add_one, List.sum_append]
    cases h : sizes[j]? <;> simp [List.getD, h]
  rw [List.extract_eq_take_drop, List.take_eq_take_iff, List.length_drop, hsum]
  omega

namespace History

/-- Whatever the order in which pulls and messages come to a broker without limits, and whenever
its chores are done: once they are, the pull with number `j` was sent exactly its share of the
messages, to its own inbox, and nothing else but heartbeats. What was sent in all is as much as
was stored, or as was asked for. -/
theorem allotted_in_order {l : Limits} (hl : l.Unlimited) (names : List String) (ts : List Turn)
    (hp : ∀ p ∈ pullsOf ts, p.1 ∈ names ∧ Patient p.2) :
    let x := ts.foldl answer (opened l names)
    let sizes := (pullsOf ts).map fun p => p.2.batch
    let ms := storedBy ts
    x.broker.agenda = [] ∧
      x.books.tickets.map (fun t => (t.inbox, t.request)) = pullsOf ts ∧
      x.books.letters.map Letter.post = x.sent ∧
      (∀ l ∈ x.books.letters, l.Brings x.books.tickets) ∧
      (∀ j, x.books.mailOf j =
        (ms.extract (sizes.take j).sum (min (sizes.take (j + 1)).sum ms.length)).map .message) ∧
      x.broker.delivered = min ms.length sizes.sum := by
  intro x sizes ms
  obtain ⟨hstart, hidle⟩ := Answered.opened hl names
  obtain ⟨h, ha⟩ := hstart.run hidle ts hp
  have hslots : x.books.slots = shares 0 sizes := by
    unfold Books.slots
    refine congrArg (shares 0) ?_
    rw [show sizes = (x.books.tickets.map fun t => (t.inbox, t.request)).map fun p => p.2.batch from
      congrArg _ h.tickets.symm, List.map_map]
    rfl
  have hhanded : x.books.handed = (shares 0 sizes).zip ms := by
    rw [← hslots]
    exact (h.uncut.handed_at_rest h.inOrder h.tied h.shaped ha).trans (congrArg _ h.stored)
  refine ⟨ha, h.tickets, ?_, h.uncut.letters, fun j => ?_, ?_⟩
  · have := h.tied.letters
    rwa [show posts x.broker.agenda = [] by rw [ha]; rfl, List.append_nil] at this
  · rw [Books.mailOf_eq_handed fun l hm => ?_, hhanded, ← share_eq_extract,
      ← beside_shares 0 j sizes ms, Nat.zero_add]
    obtain ⟨n, t, m, rfl, _, hm⟩ := h.uncut.letters l hm
    exact ⟨n, t.inbox, m, rfl, hm⟩
  · have htaken := congrArg List.length h.inOrder.taken
    rw [List.length_map, List.length_take] at htaken
    have hcursor : x.books.handed.length = x.broker.cursor :=
      htaken.trans (Nat.min_eq_left h.inOrder.bounded)
    rw [h.inOrder.counted, ← hcursor, hhanded, List.length_zip, length_shares, Nat.min_comm]

/-- Two messages, whenever they come. -/
def two : PullRequest :=
  ⟨2, 0, none, none, false, Nat.two_pos, PullRequest.none_ne_zero, PullRequest.none_ne_zero⟩

/-- The second pull comes while the first still waits for a message. -/
def staggered : List Turn :=
  [⟨.pull "a" two, 0, fun i => i⟩, ⟨.publish (.plain "s" ⟨#[0]⟩), 5, fun _ => 5⟩,
    ⟨.pull "b" two, 6, fun _ => 7⟩, ⟨.publish (.plain "s" ⟨#[1]⟩), 8, fun _ => 8⟩, ⟨.look, 9, id⟩,
    ⟨.publish (.plain "s" ⟨#[2]⟩), 9, fun i => 9 + i⟩]

theorem allotted_staggered :
    Limits.default.Unlimited ∧ (∀ p ∈ pullsOf staggered, p.1 ∈ ["a", "b"] ∧ Patient p.2) ∧
      (staggered.foldl answer (opened .default ["a", "b"])).books.mailOf 1 =
        [.message (.plain "s" ⟨#[2]⟩)] ∧
      (staggered.foldl answer (opened .default ["a", "b"])).broker.delivered = 3 := by
  have hp : ∀ p ∈ pullsOf staggered, p.1 ∈ ["a", "b"] ∧ Patient p.2 := by
    intro p hm
    simp only [pullsOf, staggered, List.filterMap_cons, Ask.pull?, List.filterMap_nil,
      List.mem_cons, List.not_mem_nil, or_false] at hm
    rcases hm with rfl | rfl <;> exact ⟨by decide, rfl, rfl, rfl⟩
  have hl : Limits.default.Unlimited := ⟨rfl, rfl, rfl, rfl⟩
  obtain ⟨_, _, _, _, hmail, hall⟩ := allotted_in_order hl ["a", "b"] staggered hp
  exact ⟨hl, hp, hmail 1, hall⟩

end History

end DemandFlow.Broker
