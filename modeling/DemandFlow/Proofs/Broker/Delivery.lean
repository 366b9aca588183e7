import DemandFlow.Proofs.Broker.History

/-
  What a broker hands out, over all inboxes and in order of time, is the stream up to the cursor,
  message by message. Pulls are served in the order of their numbers, since only the first in the
  queue is ever served and new pulls come last; the stream itself only grows.
-/

namespace DemandFlow.Broker

/-- The message that a letter hands out, with the number of the pull it is handed out for. -/
def Letter.handed? : Letter → Option (Nat × Message)
  | .mail n _ (.message m) => some (n, m)
  | .mail _ _ (.refusal _) | .mail _ _ (.closing _) | .mail _ _ (.beat _) => none
  | .injected _ _ => none

namespace Books

/-- The messages handed out so far, each with the number of its pull. -/
def handed (k : Books) : List (Nat × Message) := k.letters.filterMap Letter.handed?

theorem handed_refuse (inbox : String) (r : PullRequest) (s : Status) (k : Books) :
    (k.refuse inbox r s).handed = k.handed := by
  simp [handed, refuse, Letter.handed?]

theorem handed_inject (inbox : String) (f : Frame) (k : Books) :
    (k.inject inbox f).handed = k.handed := by
  simp [handed, inject, Letter.handed?]

/-- Nothing is handed out when no pull's mail has a message. -/
theorem handed_settle {f : Nat → WaitingPull → Fate} {k : Books}
    (h : ∀ n p, ∀ m ∈ (f n p).mail, ∀ msg, m ≠ .message msg) : (k.settle f).handed = k.handed := by
  unfold handed settle
  rw [List.filterMap_append]
  refine List.append_right_eq_self.2 (List.filterMap_eq_nil_iff.2 fun l hl => ?_)
  obtain ⟨e, _, he⟩ := List.mem_flatMap.1 hl
  obtain ⟨m, hm, rfl⟩ := List.mem_map.1 he
  cases m with
  | message msg => exact absurd rfl (h _ _ _ hm msg)
  | refusal s => rfl
  | closing s => rfl
  | beat s => rfl

/-- What is handed out for one pull, where all others stay. -/
theorem handed_settle_only {k : Books} (h : k.Orderly) {e : Nat × WaitingPull} (he : e ∈ k.queue)
    (f : WaitingPull → Fate) : (k.settle (Fate.only e.1 f)).handed =
      k.handed ++ ((f e.2).mail.map (Letter.mail e.1 e.2.inbox)).filterMap Letter.handed? := by
  obtain ⟨xs, ys, hq⟩ := List.append_of_mem he
  unfold handed
  rw [(settle_only h hq).2, List.filterMap_append]

/-- A message is handed out for a pull that does not refuse it. -/
theorem handed_offered {k : Books} (h : k.Orderly) {e : Nat × WaitingPull} (he : e ∈ k.queue)
    {m : Message} (hr : e.2.refuses m.size = false) (now : Nat) :
    (k.settle (Fate.only e.1 (Fate.offered now m))).handed = k.handed ++ [(e.1, m)] := by
  have hf : Fate.offered now m e.2 = Fate.served now m e.2 := if_neg (by simp [hr])
  rw [handed_settle_only h he, hf]
  refine congrArg (_ ++ ·) ?_
  unfold Fate.served
  dsimp only
  split <;> rfl

end Books

theorem Fate.timed_hands_none (now : Nat) (p : WaitingPull) :
    ∀ m ∈ (timed now p).mail, ∀ msg, m ≠ .message msg := by
  unfold timed
  rcases State.due_cases now p with ⟨he, _⟩ | ⟨t, he⟩ | he <;> rw [he] <;> simp

/-! ## The stream and the cursor -/

/-- The messages handed out are those of the stream before the cursor, for pulls in the order of
their numbers; all that wait come after. -/
structure InOrder (b : State) (k : Books) : Prop where
  taken : k.handed.map Prod.snd = b.stream.toList.take b.cursor
  counted : b.delivered = b.cursor
  bounded : b.cursor ≤ b.stream.size
  ordered : (k.handed.map Prod.fst).Pairwise (· ≤ ·)
  ahead : ∀ a ∈ k.handed, ∀ e ∈ k.queue, a.1 ≤ e.1

theorem inOrder_start (l : Limits) : InOrder (State.start l) Books.empty := by
  refine ⟨rfl, rfl, Nat.le_refl _, List.Pairwise.nil, ?_⟩
  intro a ha
  cases ha

/-- What is handed out for a pull has a number that was given out. -/
theorem Books.lt_of_handed {k : Books} (h : k.Orderly) {a : Nat × Message} (ha : a ∈ k.handed) :
    a.1 < k.tickets.length := by
  obtain ⟨l, hl, hla⟩ := List.mem_filterMap.1 ha
  cases l with
  | injected inbox f => cases hla
  | mail n inbox m =>
    cases m with
    | message m =>
      cases hla
      exact h.mailed n inbox _ hl
    | refusal s => cases hla
    | closing s => cases hla
    | beat s => cases hla

section Change

variable {b b' : State} {k k' : Books}

/-- Where nothing is handed out, the numbers in the queue only have to stay behind. -/
theorem inOrder_of_same (h : InOrder b k) (hs : Same b b') (hh : k'.handed = k.handed)
    (hq : ∀ a ∈ k.handed, ∀ e ∈ k'.queue, a.1 ≤ e.1) : InOrder b' k' := by
  refine ⟨?_, ?_, ?_, ?_, ?_⟩
  · rw [hh, hs.stream, hs.cursor]
    exact h.taken
  · rw [hs.delivered, hs.cursor]
    exact h.counted
  · rw [hs.stream, hs.cursor]
    exact h.bounded
  · rw [hh]
    exact h.ordered
  · rw [hh]
    exact hq

theorem behind_settle (h : InOrder b k) (f : Nat → WaitingPull → Fate) :
    ∀ a ∈ k.handed, ∀ e ∈ (k.settle f).queue, a.1 ≤ e.1 := by
  intro a ha e he
  obtain ⟨p, hp, _⟩ := Books.mem_settle he
  exact h.ahead a ha (e.1, p) hp

/-- The message at the cursor goes to the first pull of the queue. -/
theorem inOrder_served (h : InOrder b k) (ho : k.Orderly) {now : Nat} {m : Message}
    {e : Nat × WaitingPull} {rest : List (Nat × WaitingPull)} (hq : k.queue = e :: rest)
    (hr : e.2.refuses m.size = false) (hm : b.stream[b.cursor]? = some m)
    (hs : b'.stream = b.stream) (hc : b'.cursor = b.cursor + 1)
    (hd : b'.delivered = b.delivered + 1) :
    InOrder b' (k.settle (Fate.only e.1 (Fate.offered now m))) := by
  have he : e ∈ k.queue := by rw [hq]; exact List.mem_cons_self
  have hh := Books.handed_offered ho he hr now
  have hlt : b.cursor < b.stream.size := (Array.getElem?_eq_some_iff.1 hm).1
  refine ⟨?_, ?_, ?_, ?_, ?_⟩
  · rw [hh, hs, hc, List.map_append, h.taken, List.take_add_one, Array.getElem?_toList, hm]
    rfl
  · rw [hc, hd, h.counted]
  · rw [hc, hs]
    exact hlt
  · rw [hh, List.map_append]
    refine List.pairwise_append.2 ⟨h.ordered, List.pairwise_singleton _ _, ?_⟩
    intro n hn i hi
    obtain ⟨a, ha, rfl⟩ := List.mem_map.1 hn
    rw [List.mem_singleton.1 hi]
    exact h.ahead a ha e he
  · intro a ha d hd
    rw [hh] at ha
    rcases List.mem_append.1 ha with ha | ha
    · exact behind_settle h _ a ha d hd
    · rw [List.mem_singleton.1 ha]
      obtain ⟨p, hp, _⟩ := Books.mem_settle hd
      rw [hq] at hp
      rcases List.mem_cons.1 hp with hp | hp
      · exact Nat.le_of_eq (congrArg Prod.fst hp).symm
      · have hn := ho.numbered
        rw [hq] at hn
        exact Nat.le_of_lt ((List.pairwise_cons.1 hn).1 (d.1, p) hp)

theorem inOrder_change (h : InOrder b k) (ho : k.Orderly) (hc : Change b k b' k') :
    InOrder b' k' := by
  cases hc with
  | rest hs => exact inOrder_of_same h hs rfl h.ahead
  | published m hs hc hd =>
    refine ⟨?_, by rw [hd, hc, h.counted], ?_, h.ordered, h.ahead⟩
    · rw [hs, hc, Array.toList_push, List.take_append_of_le_length h.bounded]
      exact h.taken
    · rw [hs, hc, Array.size_push]
      exact Nat.le_succ_of_le h.bounded
  | refused inbox r code text hs =>
    exact inOrder_of_same h hs (Books.handed_refuse inbox r _ k) h.ahead
  | accepted inbox r now heartbeats hs =>
    refine inOrder_of_same h hs rfl fun a ha e he => ?_
    rcases List.mem_append.1 he with he | he
    · exact h.ahead a ha e he
    · rw [List.mem_singleton.1 he]
      exact Nat.le_of_lt (Books.lt_of_handed ho ha)
  | struck inbox hk hs =>
    exact inOrder_of_same h hs rfl fun a ha e he => h.ahead a ha e (List.mem_filter.1 he).1
  | injected inbox f hs => exact inOrder_of_same h hs (Books.handed_inject inbox f k) h.ahead
  | timed now hs =>
    exact inOrder_of_same h hs (Books.handed_settle fun _ p => Fate.timed_hands_none now p)
      (behind_settle h _)
  | ended e he code text hs =>
    refine inOrder_of_same h hs ?_ (behind_settle h _)
    rw [Books.handed_settle_only ho he]
    exact List.append_nil _
  | turned now m e he hr hs =>
    refine inOrder_of_same h hs ?_ (behind_settle h _)
    have hf : Fate.offered now m e.2 = Fate.ended Code.conflict (State.stopText e.2) e.2 :=
      if_pos hr
    rw [Books.handed_settle_only ho he, hf]
    exact List.append_nil _
  | served now m e rest hq hr hm hs hc hd => exact inOrder_served h ho hq hr hm hs hc hd

/-- No event takes anything off the stream. -/
theorem stream_prefix_of_change (hc : Change b k b' k') : b.stream.toList <+: b'.stream.toList := by
  cases hc with
  | published m hs => exact ⟨[m], by rw [hs, Array.toList_push]⟩
  | served now m e rest hq hr hm hs => exact ⟨[], by rw [hs, List.append_nil]⟩
  | _ => rename_i hs; exact ⟨[], by rw [hs.stream, List.append_nil]⟩

end Change

/-! ## Whole runs -/

namespace History

/-- The messages handed out are the stream up to the cursor, each of them once; they are handed
out for pulls in the order in which these were taken on; the stream only grows; and what the
books call handed out is what is handed over to feeds. -/
theorem handed_in_order (l : Limits) (es fs : List Event) :
    let x := after l es
    let y := after l (es ++ fs)
    x.books.handed.map Prod.snd = x.broker.stream.toList.take x.broker.cursor ∧
      x.broker.delivered = x.broker.cursor ∧ x.broker.cursor ≤ x.broker.stream.size ∧
      (x.books.handed.map Prod.fst).Pairwise (· ≤ ·) ∧
      x.broker.stream.toList <+: y.broker.stream.toList ∧
      x.books.letters.map Letter.post = x.sent ++ posts x.broker.agenda := by
  dsimp only
  obtain ⟨ht, ho, hi⟩ := run_induction (P := fun x => InOrder x.broker x.books)
    (fun x e ht ho hx => inOrder_change hx ho (next_spec ht ho e).2) es (tied_start l)
    Books.orderly_empty (inOrder_start l)
  obtain ⟨_, _, hp⟩ := run_induction
    (P := fun y => (after l es).broker.stream.toList <+: y.broker.stream.toList)
    (fun y e ht ho hy => hy.trans (stream_prefix_of_change (next_spec ht ho e).2)) fs ht ho
    List.prefix_rfl
  rw [after_append]
  exact ⟨hi.taken, hi.counted, hi.bounded, hi.ordered, hp, ht.letters⟩

end History

end DemandFlow.Broker
