import DemandFlow.Proofs.Collect.Over
import DemandFlow.Proofs.Exchange.Desk

/-
  A call that collects what a fetch brings, and whom nobody else is beside. In its turns it takes
  one delivery after the other as they come in, until they yield what they yield; then it shuts the
  subscription down, waits for the two tasks and answers (`Stage`). Whatever else happens leaves it
  where it is, and brings it what there is.
-/

namespace DemandFlow.Exchange

variable {x y : Exchange} {s u : Subscription} {got ms : List Message} {ds : List Delivery}
  {e : Option ConsumerError}

/-! ## Stages of a call -/

/-- A call that collects what a fetch brings: its number, the subscription, the options and the
deadline of the fetch, and how it asks. -/
structure CollectCall where
  id : Nat
  sub : Nat
  options : FetchOptions
  due : Nat
  manner : Manner

namespace CollectCall

variable {k : CollectCall}

/-- The call reads, and nobody else does. Of the deliveries that came in it has got the first, all
messages, and the others are queued. -/
structure Reads (k : CollectCall) (ds : List Delivery) (got : List Message) (s : Subscription)
    (x : Exchange) : Prop where
  caller : x.callerOf? k.id = some ⟨k.id, .fetch k.sub (k.manner.mode got)⟩
  answer : x.answerOf? k.id = none
  sub : x.subs[k.sub]? = some s
  readers : s.readers = [k.id]
  purpose : s.purpose = .fetch (.having k.options got) k.due
  alone : ∀ c ∈ x.callers, sourceOf? c.activity = some k.sub → c.id = k.id
  brought : got.map .message ++ s.queue.toList = ds
  leads : k.options.Leads ds got

/-- How far a call has come when these deliveries came in: it reads, and is in line unless it has
to wait for more; or the fetch is over, and it waits for the tasks to end; or it has its answer. -/
inductive Stage (k : CollectCall) (ds : List Delivery) (x : Exchange) : Prop
  | reading {got : List Message} {s : Subscription} (reads : k.Reads ds got s x)
    (awake : .caller k.id ∈ x.ready ∨
      s.queue.toList = [] ∧ s.worker ≠ .ended ∧ ¬k.options.Full got)
  | leaving {ms : List Message} {e : Option ConsumerError} (yields : k.options.Yields ds ms e)
    (caller : x.callerOf? k.id = some ⟨k.id, .leave k.sub (k.manner.answer ms e)⟩)
    (answer : x.answerOf? k.id = none) (finished : Finished k.sub x)
  | answered {ms : List Message} {e : Option ConsumerError} (yields : k.options.Yields ds ms e)
    (caller : x.callerOf? k.id = none)
    (answer : x.answerOf? k.id = some (k.manner.answer ms e)) (finished : Finished k.sub x)

theorem Stage.id_lt (h : Steady x) (hk : k.Stage ds x) : k.id < x.nextCaller := by
  cases hk with
  | reading hx _ => exact id_lt_of_caller h hx.caller
  | leaving _ hc _ _ => exact id_lt_of_caller h hc
  | answered _ _ ha _ => exact id_lt_of_answer h ha

/-! ### The moves of others -/

/-- Who reads is left alone by all but the worker. -/
theorem Reads.follow (h : Steady x) (hx : k.Reads ds got s x) {m : Move}
    (hown : m ≠ .turn (.caller k.id)) (hwork : m ≠ .turn (.worker k.sub))
    (hm : m.reads? ≠ some k.sub) : ∃ u, k.Reads ds got u (x.follow m) ∧ u.shelf = s.shelf := by
  obtain ⟨hcaller, hanswer⟩ := caller_follow h (id_lt_of_caller h hx.caller) fun he =>
    absurd he hown
  have hsame : Reserved (· = s.shelf) (· = k.id) k.sub x := ⟨⟨s, hx.sub, rfl⟩, hx.alone⟩
  have hfetch : Shelf.OfFetch (· = s.shelf) := fun g hg =>
    ⟨_, _, (congrArg Shelf.purpose hg).trans hx.purpose⟩
  obtain ⟨⟨u, hu, hshelf⟩, halone⟩ := hsame.follow hfetch m (fun he => absurd he hwork)
    (fun he => absurd he hm) fun n hn he => absurd (he ▸ hn) hown
  obtain ⟨hqueue, hline, hpurpose, _⟩ := Shelf.mk.inj hshelf
  exact ⟨u, ⟨hcaller.trans hx.caller, hanswer.trans hx.answer, hu, hline.trans hx.readers,
    hpurpose.trans hx.purpose, halone, hqueue ▸ hx.brought, hx.leads⟩, hshelf⟩

/-- The worker brings deliveries, and wakes the call with them or with the end. -/
theorem Stage.worker (h : Steady x) (hx : k.Reads ds got s x)
    (hawake : .caller k.id ∈ x.ready ∨
      s.queue.toList = [] ∧ s.worker ≠ .ended ∧ ¬k.options.Full got) :
    k.Stage (ds ++ s.passes) (x.turn (.worker k.sub)) := by
  have hown : Move.turn (.worker k.sub) ≠ .turn (.caller k.id) := nofun
  obtain ⟨hcaller, hanswer⟩ := caller_follow h (id_lt_of_caller h hx.caller) fun he =>
    absurd he hown
  have hready : ∀ {t : Task}, t ≠ .worker k.sub → t ∈ (x.workerStep k.sub).1.ready →
      t ∈ (x.turn (.worker k.sub)).ready := by
    intro t ht hmem
    rcases turn_cases x (.worker k.sub) with ⟨_, he⟩ | ⟨_, he⟩
    · exact he ▸ hmem
    · rw [he]
      exact (List.mem_erase_of_ne ht).2 hmem
  have hsubs : (x.turn (.worker k.sub)).subs = (x.workerStep k.sub).1.subs := by
    rcases turn_cases x (.worker k.sub) with ⟨_, he⟩ | ⟨_, he⟩ <;> rw [he] <;> rfl
  have hfetch : Reserved (fun h => ∃ f due, h.purpose = .fetch f due) (· = k.id) k.sub x :=
    ⟨⟨s, hx.sub, _, _, hx.purpose⟩, hx.alone⟩
  have halone := (hfetch.follow (fun _ hg => hg) (.turn (.worker k.sub)) (fun _ _ _ _ hg => hg)
    nofun nofun).readers
  obtain ⟨u, hu⟩ := passesOn_workerStep h.seated.foreground hx.sub hx.purpose
  have hreads : k.Reads (ds ++ s.passes) got u (x.turn (.worker k.sub)) :=
    { caller := hcaller.trans hx.caller
      answer := hanswer.trans hx.answer
      sub := hsubs ▸ hu.sub
      readers := hu.readers.trans hx.readers
      purpose := hu.purpose.trans hx.purpose
      alone := halone
      brought := by rw [hu.queue, ← List.append_assoc, hx.brought]
      leads := hx.leads.append _ }
  have hline : .caller k.id ∈ x.ready → .caller k.id ∈ (x.turn (.worker k.sub)).ready :=
    ready_follow (m := .turn (.worker k.sub)) h nofun
  refine .reading hreads ?_
  rcases hu.wakes with he | ⟨hnone, hw⟩ | hwake
  · have hsame : s = u := Option.some.inj (hx.sub.symm.trans (he ▸ hu.sub))
    exact hawake.imp hline fun hrest => hsame ▸ hrest
  · refine hawake.imp hline fun hrest => ⟨?_, hw, hrest.2.2⟩
    rw [hu.queue, hnone, hrest.1]
    rfl
  · refine Or.inl (hready nofun (hwake _ ?_))
    unfold readerAt
    rw [hx.readers]
    exact List.mem_singleton_self _

/-! ### Its own turns -/

/-- A call that has taken a message reads on. -/
theorem Reads.more (hx : k.Reads ds got s x) {m : Message} {rest : Fifo Delivery} (hy : Stays x y)
    (hu : y.subs[k.sub]? = some { s with queue := rest, readers := [] })
    (hq : s.queue.toList = .message m :: rest.toList) (hf : ¬k.options.Full got) :
    ∃ u, k.Reads ds (got ++ [m]) u
      (((y.setFetch k.sub (.having k.options (got ++ [m])) k.due).setActivity k.id
        (.fetch k.sub (k.manner.mode (got ++ [m])))).joinLine k.id k.sub) := by
  have hset : (y.setFetch k.sub (.having k.options (got ++ [m])) k.due).subs[k.sub]? = some
      { s with
        queue := rest
        readers := []
        purpose := .fetch (.having k.options (got ++ [m])) k.due } := by
    show (y.subs.modify k.sub _)[k.sub]? = _
    rw [Array.getElem?_modify, if_pos rfl, hu]
    rfl
  have hz : Reserved (fun _ => True) (· = k.id) k.sub
      (y.setFetch k.sub (.having k.options (got ++ [m])) k.due) :=
    ⟨⟨_, hset, trivial⟩, fun c hc => hx.alone c (hy.callers ▸ hc)⟩
  have hbrought : (got ++ [m]).map Delivery.message ++ rest.toList = ds := by
    rw [← hx.brought, hq]
    simp
  have hleads : k.options.Leads ds (got ++ [m]) := by
    have hl := hx.leads
    rw [← hx.brought, hq] at hl
    have hsnoc := hl.snoc hf
    rw [← hq, hx.brought] at hsnoc
    exact hsnoc
  refine ⟨{ s with
    queue := rest
    readers := [k.id]
    purpose := .fetch (.having k.options (got ++ [m])) k.due }, ?_, ?_, ?_, rfl, rfl, ?_,
    hbrought, hleads⟩
  · exact callerOf?_setActivity_self (x := y.setFetch k.sub _ k.due)
      ((callerOf?_of_callers hy.callers k.id).trans hx.caller) _
  · exact (congrArg (List.lookup k.id) hy.answers).trans hx.answer
  · show ((y.setFetch k.sub _ k.due).subs.modify k.sub _)[k.sub]? = _
    rw [Array.getElem?_modify, if_pos rfl, hset]
    rfl
  · exact (hz.setActivity k.id (a := .fetch k.sub (k.manner.mode (got ++ [m])))
      fun _ => rfl).readers

/-- A call that has come to what the deliveries yield ends the fetch and leaves. -/
theorem Reads.done (hx : k.Reads ds got s x) (hy : Stays x y) (hu : y.subs[k.sub]? = some u)
    (hyields : k.options.Yields ds got e) (f : Fetch) (reason : String) :
    k.Stage ds (y.endFetch k.id k.sub f k.due reason (k.manner.answer got e)) := by
  obtain ⟨z, v, hz, hv, hclosed, hover, hend⟩ := endFetch_of hu k.id f k.due reason
    (k.manner.answer got e)
  have hstays := hy.trans hz
  rw [hend]
  refine .leaving hyields ?_ ?_ (.of_sub (s := v) hv hclosed hover)
  · exact callerOf?_setActivity_self
      ((callerOf?_of_callers hstays.callers k.id).trans hx.caller) _
  · exact (congrArg (List.lookup k.id) hstays.answers).trans hx.answer

theorem Reads.waits (hx : k.Reads ds got s x) :
    k.Reads ds got s (x.waitUntil k.id (some k.due)) := by
  have hcore := core_keepTimer x (.caller k.id) k.due
  have hcallers : (x.keepTimer (.caller k.id) k.due).callers = x.callers :=
    congrArg Core.callers hcore
  have hsubs : (x.keepTimer (.caller k.id) k.due).subs = x.subs := congrArg Core.subs hcore
  have hanswers := answers_of_desk (skips_desk.keepTimer x (.caller k.id) k.due)
  exact
    { caller := (callerOf?_of_callers hcallers k.id).trans hx.caller
      answer := (congrArg (List.lookup k.id) hanswers).trans hx.answer
      sub := (congrArg (·[k.sub]?) hsubs).trans hx.sub
      readers := hx.readers
      purpose := hx.purpose
      alone := fun c hc => hx.alone c (hcallers ▸ hc)
      brought := hx.brought
      leads := hx.leads }

/-- In its turn a call that reads takes a message, or ends the fetch, or waits. -/
theorem Reads.turn (hb : k.options.maxBytes ≤ Count.top) (hx : k.Reads ds got s x)
    (hr : .caller k.id ∈ x.ready) : k.Stage ds (x.turn (.caller k.id)) := by
  have hstep : x.stepOf (.caller k.id) = x.fetchStep k.id k.sub (k.manner.mode got) :=
    callerStep_of_fetch hx.caller
  have hturn := turn_fetchStep hx.sub hx.readers hx.purpose hb (hx.brought.symm ▸ hx.leads)
    k.manner
  generalize x.fetchStep k.id k.sub (k.manner.mode got) = z at hstep hturn
  cases hturn with
  | more hy hu hq hf =>
    obtain ⟨v, hv⟩ := hx.more hy hu hq hf
    rw [turn_of_true hstep]
    exact .reading hv (Or.inl (hy.ready _ hr))
  | done reason hy hu hyields =>
    rw [turn_of_true hstep]
    exact hx.done hy hu (hx.brought ▸ hyields) _ reason
  | waits hq hw hf =>
    rw [turn_of_false hstep]
    exact .reading (s := s) { hx.waits with } (Or.inr ⟨hq, hw, hf⟩)

/-- In its turn a call that waits for the tasks answers if both have ended. -/
theorem leaving_turn (hyields : k.options.Yields ds ms e)
    (hc : x.callerOf? k.id = some ⟨k.id, .leave k.sub (k.manner.answer ms e)⟩)
    (ha : x.answerOf? k.id = none) (hx : Finished k.sub x) :
    k.Stage ds (x.turn (.caller k.id)) := by
  have hstep : x.stepOf (.caller k.id) = x.leaveStep k.id k.sub (k.manner.answer ms e) :=
    callerStep_of_leave hc
  have hover : Finished k.sub (x.turn (.caller k.id)) := hx.follow (.turn (.caller k.id))
  obtain ⟨s, hs, _⟩ := hx.closed
  have hleave : x.leaveStep k.id k.sub (k.manner.answer ms e) =
      if s.isOver then (x.finish k.id (k.manner.answer ms e), false) else (x, false) := by
    unfold leaveStep
    rw [hs]
  by_cases hdone : s.isOver = true
  · rw [if_pos hdone] at hleave
    rw [turn_of_false (hstep.trans hleave)] at hover ⊢
    refine .answered hyields (callerOf?_finish_self x k.id (k.manner.answer ms e)) ?_ hover
    show List.lookup k.id (x.answers ++ [(k.id, k.manner.answer ms e)]) = _
    rw [List.lookup_append, show List.lookup k.id x.answers = none from ha]
    simp
  · rw [if_neg hdone] at hleave
    rw [turn_of_false (hstep.trans hleave)] at hover ⊢
    exact .leaving hyields hc ha hover

/-! ### Runs -/

/-- Whatever happens next, as long as nobody else reads, the call gets on or stays where it is. -/
theorem Stage.follow (h : Steady x) (hb : k.options.maxBytes ≤ Count.top) {m : Move}
    (hm : x.Allows m) (hreads : m.reads? ≠ some k.sub) (hk : k.Stage ds x) :
    k.Stage (ds ++ x.arriving k.sub m) (x.follow m) := by
  have hid := hk.id_lt h
  cases hk with
  | @reading got s hx hawake =>
    by_cases hwork : m = .turn (.worker k.sub)
    · subst hwork
      rw [arriving_worker hx.sub]
      exact .worker h hx hawake
    rw [arriving_of_ne hwork, List.append_nil]
    by_cases hown : m = .turn (.caller k.id)
    · subst hown
      exact hx.turn hb hm
    · obtain ⟨u, hu, hshelf⟩ := hx.follow h hown hwork hreads
      obtain ⟨hqueue, _, _, hworker⟩ := Shelf.mk.inj hshelf
      refine .reading hu (hawake.imp (ready_follow h hown) fun hrest => ?_)
      rw [hqueue, hworker]
      exact hrest
  | leaving hyields hc ha hx =>
    rw [hx.arriving, List.append_nil]
    by_cases hown : m = .turn (.caller k.id)
    · subst hown
      exact leaving_turn hyields hc ha hx
    · obtain ⟨hcaller, hanswer⟩ := caller_follow h hid fun he => absurd he hown
      exact .leaving hyields (hcaller.trans hc) (hanswer.trans ha) (hx.follow m)
  | answered hyields hc ha hx =>
    rw [hx.arriving, List.append_nil]
    obtain ⟨hcaller, hanswer⟩ := caller_follow h hid fun _ => hc
    exact .answered hyields (hcaller.trans hc) (hanswer.trans ha) (hx.follow m)

theorem Stage.followed (h : Steady x) (hb : k.options.maxBytes ≤ Count.top) {ns : List Move}
    (hrun : x.IsRun ns) (hreads : ∀ m ∈ ns, m.reads? ≠ some k.sub) (hk : k.Stage ds x) :
    k.Stage (ds ++ x.arrived k.sub ns) (x.followed ns) := by
  induction ns generalizing x ds with
  | nil => exact (List.append_nil ds).symm ▸ hk
  | cons m ns ih =>
    have hrest := ih (steady_follow h hrun.1) hrun.2
      (fun n hn => hreads n (List.mem_cons_of_mem m hn))
      (hk.follow h hb hrun.1 (hreads m List.mem_cons_self))
    rw [List.append_assoc] at hrest
    exact hrest

/-- In a lull a call has answered, unless all that came in are messages that reach no limit, and
more may come. -/
theorem Stage.of_isQuiet (h : Steady x) (hq : x.isQuiet = true) (hk : k.Stage ds x) :
    (∃ ms e, k.options.Yields ds ms e ∧ x.answerOf? k.id = some (k.manner.answer ms e)) ∨
      ∃ s ms, x.subs[k.sub]? = some s ∧ s.worker ≠ .ended ∧ ¬k.options.Full ms ∧
        k.options.Yields ds ms none ∧ ds = ms.map .message := by
  cases hk with
  | @reading got s hx hawake =>
    rw [ready_of_isQuiet hq] at hawake
    obtain ⟨hqueue, hw, hf⟩ := hawake.resolve_left List.not_mem_nil
    have hbrought := hx.brought
    rw [hqueue] at hbrought
    have hl := hx.leads
    rw [← hbrought] at hl ⊢
    exact Or.inr ⟨s, got, hx.sub, hw, hf, hl.yields_of_all, List.append_nil _⟩
  | leaving _ hc _ hx =>
    obtain ⟨s, hs, hclosed⟩ := hx.closed
    rw [not_isQuiet_of_leave h hc hs hclosed] at hq
    cases hq
  | answered hyields _ ha _ => exact Or.inl ⟨_, _, hyields, ha⟩

end CollectCall

end DemandFlow.Exchange
