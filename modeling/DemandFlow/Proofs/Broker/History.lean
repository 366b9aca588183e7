import DemandFlow.Proofs.Broker.Books
import DemandFlow.Proofs.Broker.Owed

/-
  What one event can do to a broker and its books, said once (`Change`, `next_spec`), and what
  follows for whole runs: the books go on to show the broker's queue and what was handed over,
  and they stay in order. Laws about the pulls of a broker are laws about `Change`.
-/

namespace DemandFlow.Broker

/-! ## What one event can do -/

/-- Nothing was published and nothing was handed out. -/
structure Same (b b' : State) : Prop where
  stream : b'.stream = b.stream
  cursor : b'.cursor = b.cursor
  delivered : b'.delivered = b.delivered

/-- What one event can do to a broker and its books. -/
inductive Change (b : State) (k : Books) (b' : State) : Books → Prop where
  | rest (h : Same b b') : Change b k b' k
  | published (m : Message) (hs : b'.stream = b.stream.push m) (hc : b'.cursor = b.cursor)
      (hd : b'.delivered = b.delivered) : Change b k b' k
  | refused (inbox : String) (r : PullRequest) (code : Nat) (text : String) (h : Same b b') :
      Change b k b' (k.refuse inbox r (refusal r code text))
  | accepted (inbox : String) (r : PullRequest) (now : Nat) (heartbeats : Bool) (h : Same b b') :
      Change b k b' (k.accept inbox r (.ofRequest inbox r now heartbeats))
  | struck (inbox : String) (hk : b'.knows inbox = false) (h : Same b b') :
      Change b k b' (k.strike inbox)
  | injected (inbox : String) (f : Frame) (h : Same b b') : Change b k b' (k.inject inbox f)
  | timed (now : Nat) (h : Same b b') : Change b k b' (k.settle fun _ p => Fate.timed now p)
  | ended (e : Nat × WaitingPull) (he : e ∈ k.queue) (code : Nat) (text : String)
      (h : Same b b') : Change b k b' (k.settle (Fate.only e.1 (Fate.ended code text)))
  | turned (now : Nat) (m : Message) (e : Nat × WaitingPull) (he : e ∈ k.queue)
      (hr : e.2.refuses m.size = true) (h : Same b b') :
      Change b k b' (k.settle (Fate.only e.1 (Fate.offered now m)))
  | served (now : Nat) (m : Message) (e : Nat × WaitingPull) (rest : List (Nat × WaitingPull))
      (hq : k.queue = e :: rest) (hr : e.2.refuses m.size = false)
      (hm : b.stream[b.cursor]? = some m) (hs : b'.stream = b.stream)
      (hc : b'.cursor = b.cursor + 1) (hd : b'.delivered = b.delivered + 1) :
      Change b k b' (k.settle (Fate.only e.1 (Fate.offered now m)))

theorem same_refl (b : State) : Same b b := ⟨rfl, rfl, rfl⟩

namespace History

theorem tied_start (l : Limits) : (start l).Tied := ⟨rfl, List.Pairwise.nil, rfl⟩

/-- Letters that are written while no post is left go to the head of the agenda. -/
theorem tied_of {x y : History} (new : List Letter) (rest : List Chore) (hx : x.Tied)
    (hn : posts x.broker.agenda = []) (hq : y.books.queue.map Prod.snd = y.broker.waiting)
    (hl : y.books.letters = x.books.letters ++ new)
    (ha : y.broker.agenda = new.map Letter.chore ++ rest) (hr : ∀ c ∈ rest, c.isPost = false)
    (hs : y.sent = x.sent) : y.Tied := by
  have hxl := hx.letters
  rw [hn, List.append_nil] at hxl
  refine ⟨hq, ?_, ?_⟩
  · rw [ha]
    refine tidy_posts_append (fun c hc => ?_) (tidy_of_not_post hr)
    obtain ⟨l, _, rfl⟩ := List.mem_map.1 hc
    rfl
  · rw [hl, ha, hs, List.map_append, hxl, posts_append, posts_chores, posts_eq_nil hr,
      List.append_nil]

section Commands

variable {x : History} {now : Nat}

theorem spec_pull (h : x.Tied) (ha : x.broker.agenda = []) (inbox : String) (r : PullRequest) :
    (History.mk (x.broker.request now inbox r) (x.books.writeCommand x.broker now (.pull inbox r))
        x.sent).Tied ∧
      Change x.broker x.books (x.broker.request now inbox r)
        (x.books.writeCommand x.broker now (.pull inbox r)) := by
  have hn : posts x.broker.agenda = [] := by rw [ha]; rfl
  rcases State.request_cases now inbox r x.broker with ⟨hk, he⟩ | ⟨s, hk, hf, he⟩ | ⟨hk, hf, he⟩
  · have hw : x.books.writeCommand x.broker now (.pull inbox r) = x.books := by
      simp [Books.writeCommand, hk]
    rw [he, hw]
    exact ⟨⟨h.queue, h.tidy, h.letters⟩, .rest ⟨rfl, rfl, rfl⟩⟩
  · have hw : x.books.writeCommand x.broker now (.pull inbox r) = x.books.refuse inbox r s := by
      simp [Books.writeCommand, hk, hf]
    obtain ⟨code, text, _, rfl⟩ := refusal?_eq_some hf
    rw [he, hw]
    refine ⟨?_, .refused _ _ _ _ ⟨rfl, rfl, rfl⟩⟩
    refine tied_of [.mail _ inbox (.refusal _)] [] h hn h.queue rfl ?_ (by simp) rfl
    simp [State.first, ha, Letter.chore, Letter.post, Mail.frame]
  · have hw : x.books.writeCommand x.broker now (.pull inbox r) =
        x.books.accept inbox r (.ofRequest inbox r now x.broker.limits.heartbeats) := by
      simp [Books.writeCommand, hk, hf]
    rw [he, hw]
    refine ⟨?_, .accepted _ _ _ _ ⟨rfl, rfl, rfl⟩⟩
    refine tied_of [] (if r.noWait then [.handOut, .endNoWait inbox] else [.handOut])
      h hn ?_ (List.append_nil _).symm ?_ ?_ rfl
    · show (x.books.queue ++ [_]).map Prod.snd = x.broker.waiting ++ [_]
      rw [List.map_append, h.queue]
      rfl
    · simp [State.first, ha]
    · cases r.noWait <;> simp [Chore.isPost]

theorem spec_command (h : x.Tied) (ha : x.broker.agenda = []) (c : Command) :
    (History.mk (x.broker.accept now c) (x.books.writeCommand x.broker now c) x.sent).Tied ∧
      Change x.broker x.books (x.broker.accept now c) (x.books.writeCommand x.broker now c) := by
  have hn : posts x.broker.agenda = [] := by rw [ha]; rfl
  cases c with
  | publish m =>
    refine ⟨?_, .published m rfl rfl rfl⟩
    refine tied_of [] [.handOut] h hn h.queue (List.append_nil _).symm ?_
      (by simp [Chore.isPost]) rfl
    simp [State.accept, State.first, ha]
  | register inbox => exact ⟨⟨h.queue, h.tidy, h.letters⟩, .rest ⟨rfl, rfl, rfl⟩⟩
  | pull inbox r => exact spec_pull h ha inbox r
  | unsubscribe inbox =>
    refine ⟨⟨?_, h.tidy, h.letters⟩, .struck inbox (State.knows_forget _ _) ⟨rfl, rfl, rfl⟩⟩
    exact (Books.queue_strike inbox x.books).trans (by rw [h.queue]; rfl)
  | inject inbox f =>
    refine ⟨?_, .injected inbox f ⟨rfl, rfl, rfl⟩⟩
    refine tied_of [.injected inbox f] [] h hn h.queue rfl ?_ (by simp) rfl
    simp [State.accept, State.first, ha, Letter.chore, Letter.post]
  | stats asker => exact ⟨⟨h.queue, h.tidy, h.letters⟩, .rest ⟨rfl, rfl, rfl⟩⟩
  | pullLog asker => exact ⟨⟨h.queue, h.tidy, h.letters⟩, .rest ⟨rfl, rfl, rfl⟩⟩

/-! ## Timers -/

theorem left_timed (now : Nat) (p : WaitingPull) :
    (Fate.timed now p).left = (State.due now p).2 := by
  unfold Fate.timed
  rcases State.due_cases now p with ⟨he, _⟩ | ⟨t, he⟩ | he <;> rw [he]

theorem chores_timed (now n : Nat) (p : WaitingPull) :
    ((Fate.timed now p).mail.map fun m => (Letter.mail n p.inbox m).chore) =
      ((State.due now p).1.map (Chore.post p.inbox)).toList := by
  unfold Fate.timed
  rcases State.due_cases now p with ⟨he, _⟩ | ⟨t, he⟩ | he <;> rw [he] <;> rfl

theorem spec_timers (h : x.Tied) (ha : x.broker.agenda = []) :
    (History.mk (x.broker.fireTimers now) (x.books.settle fun _ p => Fate.timed now p)
        x.sent).Tied ∧
      Change x.broker x.books (x.broker.fireTimers now)
        (x.books.settle fun _ p => Fate.timed now p) := by
  have hn : posts x.broker.agenda = [] := by rw [ha]; rfl
  refine ⟨tied_of _ [] h hn ?_ rfl ?_ (by simp) rfl, .timed now ⟨rfl, rfl, rfl⟩⟩
  · show (x.books.queue.filterMap _).map Prod.snd = x.broker.waiting.filterMap _
    rw [← h.queue]
    induction x.books.queue with
    | nil => rfl
    | cons e es ih =>
      rw [List.filterMap_cons, List.map_cons, List.filterMap_cons, left_timed]
      cases (State.due now e.2).2 with
      | none => exact ih
      | some q => exact congrArg (q :: ·) ih
  · show x.broker.waiting.filterMap _ ++ x.broker.agenda = (x.books.queue.flatMap _).map _ ++ []
    rw [ha, ← h.queue, List.append_nil, List.append_nil]
    induction x.books.queue with
    | nil => rfl
    | cons e es ih =>
      rw [List.map_cons, List.filterMap_cons, List.flatMap_cons, List.map_append, ← ih,
        List.map_map]
      have hc := chores_timed now e.1 e.2
      cases hd : (State.due now e.2).1 with
      | none =>
        rw [hd] at hc
        exact (congrArg (· ++ _) hc).symm
      | some f =>
        rw [hd] at hc
        exact (congrArg (· ++ _) hc).symm

end Commands

/-! ## Chores -/

section Chores

variable {x : History} {now : Nat} {gone : Bool} {rest : List Chore}

/-- The posts for a message are the mail of the pull that it is handed out for. -/
theorem chores_served (n : Nat) (m : Message) (p : WaitingPull) :
    ((Fate.served now m p).mail.map (Letter.mail n p.inbox)).map Letter.chore =
      State.handed (p.charged m.size now) m := by
  unfold Fate.served State.handed
  dsimp only
  split <;> rfl

theorem spec_handOut (h : x.Tied) (ho : x.books.Orderly) (ha : x.broker.agenda = .handOut :: rest) :
    (History.mk (({ x.broker with agenda := rest } : State).handOut now)
        (x.books.writeChore x.broker now gone) x.sent).Tied ∧
      Change x.broker x.books (({ x.broker with agenda := rest } : State).handOut now)
        (x.books.writeChore x.broker now gone) := by
  have ht := h.tidy
  rw [ha] at ht
  have hr := not_post_of_tidy ht rfl
  have hn : posts x.broker.agenda = [] := by
    rw [ha]
    exact posts_eq_nil (by simpa [Chore.isPost] using hr)
  have hq := h.queue
  rcases State.handOut_cases now { x.broker with agenda := rest } with ⟨he, hidle⟩ |
    ⟨m, p, ps, hm, hw, href, he⟩ | ⟨m, p, ps, hm, hw, href, he⟩
  · have hk : x.books.writeChore x.broker now gone = x.books := by
      unfold Books.writeChore
      rw [ha]
      rcases hidle with hend | hnone
      · simp [Array.getElem?_eq_none hend]
      · have : x.books.queue = [] := List.map_eq_nil_iff.1 (hq.trans hnone)
        simp [this]
    rw [he, hk]
    refine ⟨tied_of [] rest h hn hq (List.append_nil _).symm rfl hr rfl,
      .rest ⟨rfl, rfl, rfl⟩⟩
  all_goals
    obtain ⟨⟨n, q⟩, es, hes, rfl, rfl⟩ := List.map_eq_cons_iff.1 (hq.trans hw)
    have hk : x.books.writeChore x.broker now gone =
        x.books.settle (Fate.only n (Fate.offered now m)) := by
      unfold Books.writeChore
      rw [ha]
      dsimp only
      rw [show x.broker.stream[x.broker.cursor]? = some m from hm, hes]
    obtain ⟨hsq, hsl⟩ := Books.settle_only (f := Fate.offered now m) ho
      (show x.books.queue = [] ++ (n, q) :: es from hes)
    rw [he, hk]
  · have hf : Fate.offered now m q = Fate.ended Code.conflict (State.stopText q) q := if_pos href
    refine ⟨tied_of _ (.handOut :: rest) h hn ?_ hsl ?_ (by simpa [Chore.isPost] using hr) rfl,
      .turned now m (n, q) (by simp [hes]) href ⟨rfl, rfl, rfl⟩⟩
    · rw [hsq, hf]
      rfl
    · rw [hf]
      rfl
  · have hf : Fate.offered now m q = Fate.served now m q := if_neg (by simp [href])
    refine ⟨tied_of _ (.handOut :: rest) h hn ?_ hsl ?_ (by simpa [Chore.isPost] using hr) rfl,
      .served now m (n, q) es hes href hm rfl rfl rfl⟩
    · rw [hsq, hf]
      unfold Fate.served
      dsimp only [State.first]
      split <;> rfl
    · rw [hf, chores_served]
      exact List.append_assoc _ _ _

theorem spec_endNoWait (h : x.Tied) (ho : x.books.Orderly) {inbox : String}
    (ha : x.broker.agenda = .endNoWait inbox :: rest) :
    (History.mk (({ x.broker with agenda := rest } : State).endNoWait inbox)
        (x.books.writeChore x.broker now gone) x.sent).Tied ∧
      Change x.broker x.books (({ x.broker with agenda := rest } : State).endNoWait inbox)
        (x.books.writeChore x.broker now gone) := by
  have ht := h.tidy
  rw [ha] at ht
  have hr := not_post_of_tidy ht rfl
  have hn : posts x.broker.agenda = [] := by
    rw [ha]
    exact posts_eq_nil (by simpa [Chore.isPost] using hr)
  have hq := h.queue
  rcases State.endNoWait_cases inbox { x.broker with agenda := rest } with ⟨he, hnone⟩ |
    ⟨p, before, after, hi, hw, hafter, he⟩
  · have hl : x.books.lastOf inbox = none := Books.lastOf_eq_none fun e he =>
      hnone e.2 (hq ▸ List.mem_map_of_mem he)
    have hk : x.books.writeChore x.broker now gone = x.books := by
      unfold Books.writeChore
      rw [ha]
      dsimp only
      rw [hl]
    rw [he, hk]
    exact ⟨tied_of [] rest h hn hq (List.append_nil _).symm rfl hr rfl,
      .rest ⟨rfl, rfl, rfl⟩⟩
  · obtain ⟨xs, zs, hes, rfl, hzs⟩ := List.map_eq_append_iff.1 (hq.trans hw)
    obtain ⟨⟨n, q⟩, ys, rfl, rfl, rfl⟩ := List.map_eq_cons_iff.1 hzs
    have hl : x.books.lastOf inbox = some (n, q) := Books.lastOf_eq_some hes hi fun e he =>
      hafter e.2 (List.mem_map_of_mem he)
    have hk : x.books.writeChore x.broker now gone =
        x.books.settle (Fate.only n (Fate.ended Code.notFound StatusText.noMessages)) := by
      unfold Books.writeChore
      rw [ha]
      dsimp only
      rw [hl]
    obtain ⟨hsq, hsl⟩ :=
      Books.settle_only (f := Fate.ended Code.notFound StatusText.noMessages) ho hes
    rw [he, hk]
    refine ⟨tied_of _ rest h hn ?_ hsl ?_ hr rfl,
      .ended (n, q) (by simp [hes]) _ _ ⟨rfl, rfl, rfl⟩⟩
    · rw [hsq]
      simp [Fate.ended, State.first]
    · rw [← hi]
      rfl

/-- A frame is handed over; if its feed is gone, its inbox is forgotten. -/
theorem spec_post (h : x.Tied) {inbox : String} {f : Frame}
    (ha : x.broker.agenda = .post inbox f :: rest) :
    (History.mk (({ x.broker with agenda := rest } : State).told inbox gone)
        (x.books.writeChore x.broker now gone) (x.sent ++ [(inbox, f)])).Tied ∧
      Change x.broker x.books (({ x.broker with agenda := rest } : State).told inbox gone)
        (x.books.writeChore x.broker now gone) := by
  have ht := h.tidy
  have hl := h.letters
  rw [ha] at ht hl
  have ht' : Tidy rest := (List.pairwise_cons.1 ht).2
  have hl' : x.books.letters.map Letter.post = (x.sent ++ [(inbox, f)]) ++ posts rest := by
    rw [hl, List.append_assoc]
    rfl
  have hk : x.books.writeChore x.broker now gone =
      if gone && x.broker.knows inbox then x.books.strike inbox else x.books := by
    unfold Books.writeChore
    rw [ha]
  have hb : ({ x.broker with agenda := rest } : State).told inbox gone =
      if gone && x.broker.knows inbox then ({ x.broker with agenda := rest } : State).forget inbox
      else { x.broker with agenda := rest } := rfl
  rw [hb, hk]
  split
  · refine ⟨⟨?_, ht', hl'⟩, .struck inbox (State.knows_forget _ _) ⟨rfl, rfl, rfl⟩⟩
    exact (Books.queue_strike inbox x.books).trans (by rw [h.queue]; rfl)
  · exact ⟨⟨h.queue, ht', hl'⟩, .rest ⟨rfl, rfl, rfl⟩⟩

theorem spec_chore (h : x.Tied) (ho : x.books.Orderly) :
    (x.next (.chore now gone)).Tied ∧
      Change x.broker x.books (x.broker.react (.chore now gone))
        (x.books.write x.broker (.chore now gone)) := by
  unfold next State.react State.handsOver Books.write
  dsimp only
  rcases State.work_cases now x.broker with ⟨ha, he⟩ | ⟨inbox, f, rest, ha, he⟩ | ⟨rest, ha, he⟩ |
    ⟨inbox, rest, ha, he⟩
  · have hk : x.books.writeChore x.broker now gone = x.books := by
      unfold Books.writeChore
      rw [ha]
    rw [he, hk]
    dsimp only [Option.toList_none]
    rw [List.append_nil]
    exact ⟨⟨h.queue, h.tidy, h.letters⟩, .rest (same_refl _)⟩
  · rw [he]
    exact spec_post h ha
  · rw [he]
    dsimp only [Option.toList_none]
    rw [List.append_nil]
    exact spec_handOut h ho ha
  · rw [he]
    dsimp only [Option.toList_none]
    rw [List.append_nil]
    exact spec_endNoWait h ho ha

end Chores

/-- Whatever happens, books that show the broker's queue go on to show it, and the broker and
the books change together. -/
theorem next_spec {x : History} (h : x.Tied) (ho : x.books.Orderly) (e : Event) :
    (x.next e).Tied ∧
      Change x.broker x.books (x.next e).broker (x.next e).books := by
  cases e with
  | command now c =>
    unfold next State.react Books.write State.handsOver
    dsimp only
    rw [List.append_nil]
    split
    · rename_i ha
      exact spec_command h (List.isEmpty_iff.1 ha) c
    · exact ⟨h, .rest (same_refl _)⟩
  | timers now =>
    unfold next State.react Books.write State.handsOver
    dsimp only
    rw [List.append_nil]
    split
    · rename_i ha
      exact spec_timers h (List.isEmpty_iff.1 ha)
    · exact ⟨h, .rest (same_refl _)⟩
  | chore now gone => exact spec_chore h ho

end History

/-! ## Fates of one pull -/

/-- What can become of a pull in one event. A beat leaves its counts alone, and only a message
that its budget can take is handed out for it. -/
inductive Fate.Of (p : WaitingPull) : Fate → Prop where
  | stay : Of p (stay p)
  | ended (code : Nat) (text : String) : Of p (ended code text p)
  | beaten (t : Nat) (s : Status) : Of p ⟨some { p with beatsAt := some t }, [.beat s]⟩
  | served (now : Nat) (m : Message) (hr : p.refuses m.size = false) : Of p (served now m p)

namespace Fate

variable {p : WaitingPull}

theorem of_timed (now : Nat) (p : WaitingPull) : Fate.Of p (timed now p) := by
  unfold timed
  rcases State.due_cases now p with ⟨he, _⟩ | ⟨t, he⟩ | he <;> rw [he]
  · exact .ended _ _
  · exact .beaten t _
  · exact .stay

theorem of_offered (now : Nat) (m : Message) (p : WaitingPull) : Fate.Of p (offered now m p) := by
  unfold offered
  split
  · exact .ended _ _
  · rename_i hr
    exact .served now m (by simpa using hr)

theorem of_only {f : WaitingPull → Fate} (hf : ∀ p, Fate.Of p (f p)) (n k : Nat)
    (p : WaitingPull) : Fate.Of p (only n f k p) := by
  unfold only
  split
  · exact hf p
  · exact .stay

theorem inbox_left {F : Fate} (h : Fate.Of p F) {q : WaitingPull} (hq : F.left = some q) :
    q.inbox = p.inbox := by
  cases h with
  | stay => cases hq; rfl
  | ended code text => cases hq
  | beaten t s => cases hq; rfl
  | served now m hr =>
    simp only [served] at hq
    split at hq
    · cases hq
    · cases hq
      rfl

end Fate

/-! ## Order is kept -/

namespace Books

variable {k : Books}

theorem mem_settle {f : Nat → WaitingPull → Fate} {e : Nat × WaitingPull}
    (he : e ∈ (k.settle f).queue) : ∃ p, (e.1, p) ∈ k.queue ∧ (f e.1 p).left = some e.2 := by
  obtain ⟨d, hd, hde⟩ := List.mem_filterMap.1 he
  obtain ⟨q, hq, rfl⟩ := Option.map_eq_some_iff.1 hde
  exact ⟨d.2, hd, hq⟩

theorem orderly_empty : empty.Orderly := by
  refine ⟨List.Pairwise.nil, ?_, ?_⟩ <;> simp [empty]

/-- Numbers, tickets and mail go together when the waiting pulls meet their fates. -/
theorem orderly_settle (h : k.Orderly) {f : Nat → WaitingPull → Fate}
    (hf : ∀ n p, Fate.Of p (f n p)) : (k.settle f).Orderly := by
  refine ⟨?_, ?_, ?_⟩
  · refine List.Pairwise.filterMap _ (fun d e hde d' hd' e' he' => ?_) h.numbered
    obtain ⟨_, _, rfl⟩ := Option.map_eq_some_iff.1 hd'
    obtain ⟨_, _, rfl⟩ := Option.map_eq_some_iff.1 he'
    exact hde
  · intro e he
    obtain ⟨p, hp, hl⟩ := mem_settle he
    rw [Fate.inbox_left (hf e.1 p) hl]
    exact h.queued _ hp
  · intro n inbox m hm
    rcases List.mem_append.1 hm with hm | hm
    · exact h.mailed n inbox m hm
    · obtain ⟨e, he, hme⟩ := List.mem_flatMap.1 hm
      obtain ⟨_, _, hmail⟩ := List.mem_map.1 hme
      cases hmail
      exact lt_of_queued h he

theorem orderly_strike (h : k.Orderly) (inbox : String) : (k.strike inbox).Orderly := by
  refine ⟨h.numbered.filter _, ?_, ?_⟩
  · intro e he
    obtain ⟨hm, hne⟩ := List.mem_filter.1 he
    obtain ⟨t, ht, hi, ho⟩ := h.queued e hm
    refine ⟨t, ?_, hi, ho⟩
    simp only [strike, List.getElem?_map, ht, Option.map_some, hi]
    exact congrArg some (if_neg (by simpa using hne))
  · intro n i m hm
    simpa [strike] using h.mailed n i m hm

/-- A new ticket leaves all others in their places. -/
theorem ticket_issue {n : Nat} {t : Ticket} (ht : k.tickets[n]? = some t) (inbox : String)
    (r : PullRequest) : (k.issue inbox r).tickets[n]? = some t := by
  have hn := (List.getElem?_eq_some_iff.1 ht).1
  show (k.tickets ++ [_])[n]? = some t
  rw [List.getElem?_append_left hn]
  exact ht

theorem length_issue (inbox : String) (r : PullRequest) :
    (k.issue inbox r).tickets.length = k.tickets.length + 1 := by
  simp [issue]

theorem orderly_refuse (h : k.Orderly) (inbox : String) (r : PullRequest) (s : Status) :
    (k.refuse inbox r s).Orderly := by
  refine ⟨h.numbered, fun e he => ?_, fun n i m hm => ?_⟩
  · obtain ⟨t, ht, hi, ho⟩ := h.queued e he
    exact ⟨t, ticket_issue ht inbox r, hi, ho⟩
  · have hl : (k.refuse inbox r s).tickets.length = k.tickets.length + 1 := length_issue inbox r
    rw [hl]
    rcases List.mem_append.1 hm with hm | hm
    · have := h.mailed n i m hm
      omega
    · cases List.mem_singleton.1 hm
      omega

theorem orderly_accept (h : k.Orderly) {inbox : String} (r : PullRequest) {p : WaitingPull}
    (hp : p.inbox = inbox) : (k.accept inbox r p).Orderly := by
  refine ⟨?_, fun e he => ?_, fun n i m hm => ?_⟩
  · refine List.pairwise_append.2 ⟨h.numbered, List.pairwise_singleton _ _, fun d hd e he => ?_⟩
    rw [List.mem_singleton.1 he]
    exact lt_of_queued h hd
  · rcases List.mem_append.1 he with he | he
    · obtain ⟨t, ht, hi, ho⟩ := h.queued e he
      exact ⟨t, ticket_issue ht inbox r, hi, ho⟩
    · rw [List.mem_singleton.1 he]
      exact ⟨⟨inbox, r, false⟩, by simp [accept, issue], hp.symm, rfl⟩
  · have hl : (k.accept inbox r p).tickets.length = k.tickets.length + 1 := length_issue inbox r
    have := h.mailed n i m hm
    omega

theorem orderly_change {b b' : State} {k' : Books} (h : k.Orderly) (hc : Change b k b' k') :
    k'.Orderly := by
  cases hc with
  | rest => exact h
  | published => exact h
  | refused inbox r code text => exact orderly_refuse h inbox r _
  | accepted inbox r now heartbeats => exact orderly_accept h r rfl
  | struck inbox => exact orderly_strike h inbox
  | injected inbox f =>
    refine ⟨h.numbered, h.queued, fun n i m hm => ?_⟩
    exact h.mailed n i m (by simpa [inject] using hm)
  | timed now => exact orderly_settle h fun _ p => Fate.of_timed now p
  | ended e he code text =>
    exact orderly_settle h fun n p => Fate.of_only (fun _ => .ended _ _) _ n p
  | turned now m e => exact orderly_settle h fun n p => Fate.of_only (Fate.of_offered now m) _ n p
  | served now m e => exact orderly_settle h fun n p => Fate.of_only (Fate.of_offered now m) _ n p

end Books

/-! ## Whole runs -/

namespace History

/-- What one event keeps, a run keeps. -/
theorem run_induction {P : History → Prop}
    (hP : ∀ x e, x.Tied → x.books.Orderly → P x → P (x.next e)) (es : List Event) {x : History}
    (ht : x.Tied) (ho : x.books.Orderly) (hx : P x) :
    (es.foldl next x).Tied ∧ (es.foldl next x).books.Orderly ∧ P (es.foldl next x) := by
  induction es generalizing x with
  | nil => exact ⟨ht, ho, hx⟩
  | cons e es ih =>
    obtain ⟨ht', hc⟩ := next_spec ht ho e
    exact ih ht' (Books.orderly_change ho hc) (hP x e ht ho hx)

theorem good_after (l : Limits) (es : List Event) :
    (after l es).Tied ∧ (after l es).books.Orderly := by
  obtain ⟨ht, ho, _⟩ := run_induction (P := fun _ => True) (fun _ _ _ _ h => h) es (tied_start l)
    Books.orderly_empty trivial
  exact ⟨ht, ho⟩

end History

end DemandFlow.Broker
