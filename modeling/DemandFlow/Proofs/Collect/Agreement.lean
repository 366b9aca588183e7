import DemandFlow.Proofs.Collect.Calls
import DemandFlow.Proofs.Collect.Issued

/-
  A batch and a stream agree. Whoever collects what a fetch brings is given what the deliveries
  yield, in the one form or the other, whenever they come in and whatever happens besides. Once a
  call has answered, the fetch is over for good: a later one is given nothing, and there is no
  other request.
-/

namespace DemandFlow.Exchange

variable {x : Exchange} {i due : Nat} {s : Subscription} {o : FetchOptions}

/-! ## The call that collects -/

/-- Nobody reads from a subscription. -/
structure IsUnread (x : Exchange) (i : Nat) : Prop where
  line : ∀ s : Subscription, x.subs[i]? = some s → s.readers = []
  callers : ∀ c ∈ x.callers, sourceOf? c.activity ≠ some i

/-- The call that collects what a fetch brings from now on. -/
def collectCall (x : Exchange) (i : Nat) (o : FetchOptions) (due : Nat) (k : Manner) :
    CollectCall := ⟨x.nextCaller, i, o, due, k⟩

/-- Who reads joins the line. -/
theorem sub_callBehind (hs : x.subs[i]? = some s) {a : Activity} (ha : sourceOf? a = some i) :
    (x.callBehind a).1.subs[i]? = some { s with readers := s.readers ++ [x.nextCaller] } := by
  rw [show Exchange.subs _ = joined a x.nextCaller x.subs from
    congrArg Core.subs (core_callBehind x a)]
  unfold joined
  rw [ha, Array.getElem?_modify, if_pos rfl, hs]
  rfl

/-- It begins to read what is queued. -/
theorem stage_collect (h : Steady x) (hs : x.subs[i]? = some s)
    (hp : s.purpose = .fetch (.start o) due) (hu : x.IsUnread i) (k : Manner) :
    (x.collectCall i o due k).Stage s.queue.toList (x.follow (.collect i (k.mode []))) := by
  have hsub := sub_callBehind hs (a := .fetch i (k.mode [])) rfl
  rw [hu.line s hs] at hsub
  have hreads : (x.collectCall i o due k).Reads s.queue.toList []
      { s with readers := [x.nextCaller] } (x.follow (.collect i (k.mode []))) :=
    { caller := callerOf?_callBehind_self h.seated _
      answer := answerOf?_callBehind_self h.seated _
      sub := hsub
      readers := rfl
      purpose := hp
      alone := fun c hc hsource => by
        rw [show (x.follow (.collect i (k.mode []))).callers = _ from
          callers_callBehind x (.fetch i (k.mode []))] at hc
        rcases List.mem_append.1 hc with hc | hc
        · exact absurd hsource (hu.callers c hc)
        · cases List.mem_singleton.1 hc
          rfl
      brought := rfl
      leads := o.leads_nil _ }
  exact .reading hreads (Or.inl (mem_callBehind h.seated _))

/-- What is so of a call that collects, when these deliveries came in and yield `ms` and `e`. -/
structure Collects (k : CollectCall) (ds : List Delivery) (ms : List Message)
    (e : Option ConsumerError) (z : Exchange) : Prop where
  /-- It is given nothing else, -/
  only : ∀ a, z.answerOf? k.id = some a → a = k.manner.answer ms e
  /-- and it is given that in a lull when no more deliveries come, or none is needed. -/
  given : z.isQuiet = true → ((∃ u : Subscription, z.subs[k.sub]? = some u ∧ u.worker = .ended) ∨
    k.options.Full ms ∨ ms.length < ds.length) → z.answerOf? k.id = some (k.manner.answer ms e)
  /-- Afterwards nobody is given anything. -/
  last : z.answerOf? k.id ≠ none → z.GivesNothing k.sub

theorem CollectCall.Stage.collects {k : CollectCall} {ds : List Delivery} {ms : List Message}
    {e : Option ConsumerError} (h : Steady x) (hk : k.Stage ds x)
    (hyields : k.options.Yields ds ms e) : Collects k ds ms e x := by
  have hsame : ∀ {ns : List Message} {e' : Option ConsumerError}, k.options.Yields ds ns e' →
      k.manner.answer ns e' = k.manner.answer ms e := by
    intro ns e' h'
    obtain ⟨rfl, rfl⟩ := h'.unique hyields
    rfl
  refine ⟨fun a ha => ?_, fun hq hdone => ?_, fun ha => ?_⟩
  · cases hk with
    | reading hx _ => cases hx.answer.symm.trans ha
    | leaving _ _ hn _ => cases hn.symm.trans ha
    | answered hy _ hn _ => exact (Option.some.inj (ha.symm.trans hn)).trans (hsame hy)
  · rcases hk.of_isQuiet h hq with ⟨ns, e', hy, ha⟩ | ⟨s, ns, hs, hw, hf, hy, hds⟩
    · rw [ha, hsame hy]
    · obtain ⟨rfl, rfl⟩ := hy.unique hyields
      rcases hdone with ⟨u, hu, hend⟩ | hfull | hlt
      · cases hs.symm.trans hu
        exact absurd hend hw
      · exact absurd hfull hf
      · rw [hds, List.length_map] at hlt
        exact absurd hlt (Nat.lt_irrefl _)
  · cases hk with
    | reading hx _ => exact absurd hx.answer ha
    | leaving _ _ hn _ => exact absurd hn ha
    | answered _ _ _ hx => exact givesNothing_of_finished h hx

/-! ## Agreement -/

/-- A batch and a stream agree on every sequence of deliveries, on every transport and whatever
else happens. The deliveries that are queued when the call comes, and those that come in later,
yield the longest run of messages at their head before each of which no limit was reached, and
the error behind it if no limit is reached and there is one. A batch is these messages, or the
error in their place; a stream gives the messages, then the error. Both are given as soon as the
deliveries have ended, a limit is reached or something else than a message came in, and nothing is
given afterwards. In the whole run the fetch makes no second request, and the transport gets none
that is not made. -/
theorem collects_alike {t : Transport} (ht : IsNew t) (keeps : Bool) (capacity : Nat)
    (ms₁ : List Move) (hrun : (start t keeps capacity).IsRun ms₁)
    (hs : ((start t keeps capacity).followed ms₁).subs[i]? = some s)
    (hp : s.purpose = .fetch (.start o) due) (hb : o.maxBytes ≤ Count.top)
    (hu : ((start t keeps capacity).followed ms₁).IsUnread i) :
    let x := (start t keeps capacity).followed ms₁
    (∀ ds : List Delivery, ∃ ms e, o.Gathers ds ms ∧ o.Ends ds ms e ∧
      ∀ (k : Manner) (ms₂ : List Move),
        let y := x.follow (.collect i (k.mode []))
        y.IsRun ms₂ → (∀ m ∈ ms₂, m.reads? ≠ some i) →
          s.queue.toList ++ y.arrived i ms₂ = ds →
            Collects (x.collectCall i o due k) ds ms e (y.followed ms₂)) ∧
    ∀ ms : List Move, let past := (start t keeps capacity).news (ms₁ ++ ms)
      (requestsMade (deedsOf i past)).length ≤ 1 ∧ ∃ ps : List (String × PullRequest),
        (ps.map Prod.snd).Sublist (requestsOf past) ∧
          t.Extends ps ((start t keeps capacity).followed (ms₁ ++ ms)).transport := by
  intro x
  have hx : Steady x := steady_followed (steady_start ht keeps capacity) hrun
  refine ⟨fun ds => ?_, fun ms => ?_⟩
  · obtain ⟨ms, e, hyields⟩ := o.exists_yields ds
    refine ⟨ms, e, hyields.gathers, hyields.ends, ?_⟩
    intro k ms₂ y hrun₂ halone hds
    have hallow : x.Allows (.collect i (k.mode [])) := trivial
    have hy : Steady y := steady_follow hx hallow
    have hstage := (stage_collect hx hs hp hu k).followed hy hb hrun₂ halone
    have hall : (x.collectCall i o due k).Stage ds (y.followed ms₂) := hds ▸ hstage
    exact hall.collects (steady_followed hy hrun₂) hyields
  · have hfetch : s.purpose.isFetch = true := by
      rw [hp]
      rfl
    obtain ⟨u, hsub, hsame⟩ := isFetch_followed hx.tame hs ms
    rw [← followed_append] at hsub
    exact ⟨requestsMade_news_le_one ht keeps capacity (ms₁ ++ ms) hsub (hsame.trans hfetch),
      extends_followed _ _⟩

/-- A fetch of three messages at most. -/
def upToThree : FetchOptions := ⟨3, 0, Defaults.expires, .ofSecs 15, by decide⟩

def firstTwo : List Message := [.plain "a" ⟨#[1]⟩, .plain "b" ⟨#[2]⟩]

def deleted : StatusError := ⟨Code.conflict, "Consumer Deleted"⟩

/-- An error behind two messages, and another message behind it. -/
def fourDeliveries : List Delivery :=
  firstTwo.map .message ++ [.error deleted, .message (.plain "c" ⟨#[3]⟩)]

/-- A fetch is opened, and the first message is queued. -/
def fetchesOne : List Move :=
  [.fetch (.ofMessages 3), .feed 0 (.message (.plain "a" ⟨#[1]⟩)), .turn (.worker 0),
    .turn (.worker 0)]

/-- The call takes it and waits, until the other deliveries come in. -/
def restComes : List Move :=
  [Move.turn (.caller 0), .turn (.caller 0), .feed 0 (.message (.plain "b" ⟨#[2]⟩)),
    .feed 0 (.status (.plain Code.conflict "Consumer Deleted")),
    .feed 0 (.message (.plain "c" ⟨#[3]⟩))] ++ List.replicate 6 (Move.turn (.worker 0)) ++
    [Move.turn (.caller 0), .turn (.caller 0), .turn (.worker 0), .turn (.alarm 0),
      .turn (.caller 0), .turn .broker]

/-- Two messages are gathered, and the error is behind them. -/
theorem yields_fourDeliveries :
    upToThree.Yields fourDeliveries firstTwo (some (.status deleted)) := by
  have hbelow : ∀ ms : List Message, ms.length < 3 → ¬upToThree.Full ms := by
    rintro ms hlt (hle | ⟨hpos, _⟩)
    · exact Nat.not_le_of_lt hlt hle
    · exact Nat.lt_irrefl 0 hpos
  refine ⟨⟨⟨List.prefix_refl _, fun before m h => hbelow before ?_⟩, fun ns hn => hn.first⟩,
    .failed (hbelow _ (by decide)) rfl rfl⟩
  have hlen := h.length_le
  rw [List.length_append, List.length_singleton] at hlen
  exact Nat.lt_of_lt_of_le hlen (by decide)

theorem fourDeliveries_alike :
    let x := (start (.scripted .start) true 4).followed fetchesOne
    let batch := (x.follow (.collect 0 (.batch []))).followed restComes
    let stream := (x.follow (.collect 0 (.stream []))).followed restComes
    (start (.scripted .start) true 4).IsRun fetchesOne ∧ ∃ s due, x.subs[0]? = some s ∧
      s.purpose = .fetch (.start upToThree) due ∧ upToThree.maxBytes ≤ Count.top ∧
      x.IsUnread 0 ∧ (x.follow (.collect 0 (.batch []))).IsRun restComes ∧
      (x.follow (.collect 0 (.stream []))).IsRun restComes ∧
      batch.answerOf? 0 = some (.reading (.error (.status deleted))) ∧
      stream.answerOf? 0 = some (.stream (firstTwo.map .ok ++ [.error (.status deleted)])) ∧
      batch.GivesNothing 0 ∧ stream.GivesNothing 0 ∧
      (requestsMade (deedsOf 0 ((start (.scripted .start) true 4).news
        (fetchesOne ++ .collect 0 (.batch []) :: restComes)))).length ≤ 1 := by
  intro x batch stream
  have hrun : (start (.scripted .start) true 4).IsRun fetchesOne := by decide +kernel
  have hterms : (x.subs[0]?).bind
      (fun s => s.purpose.fetch?.map fun f => (f, s.readers, s.queue.toList)) =
        some (.start upToThree, [], [.message (.plain "a" ⟨#[1]⟩)]) := by decide +kernel
  have hcallers : x.callers.isEmpty = true ∧ x.nextCaller = 0 := by decide +kernel
  obtain ⟨s, hs, hterms⟩ := Option.bind_eq_some_iff.1 hterms
  obtain ⟨f, hf, hterms⟩ := Option.map_eq_some_iff.1 hterms
  obtain ⟨rfl, hrest⟩ := Prod.mk.inj hterms
  obtain ⟨hreaders, hqueue⟩ := Prod.mk.inj hrest
  obtain ⟨due, hp⟩ := Purpose.fetch?_eq_some.1 hf
  have hb : upToThree.maxBytes ≤ Count.top := by decide
  have hu : x.IsUnread 0 := by
    refine ⟨fun u hu => ?_, fun c hc => ?_⟩
    · cases hs.symm.trans hu
      exact hreaders
    · rw [List.isEmpty_iff.1 hcallers.1] at hc
      cases hc
  obtain ⟨hyield, honce⟩ := collects_alike .scripted true 4 fetchesOne hrun hs hp hb hu
  obtain ⟨ms, e, hgathers, hends, hall⟩ := hyield fourDeliveries
  obtain ⟨rfl, rfl⟩ := FetchOptions.Yields.unique ⟨hgathers, hends⟩ yields_fourDeliveries
  have halone : ∀ m ∈ restComes, m.reads? ≠ some 0 := by decide
  have hcomes : ∀ k : Manner, (x.follow (.collect 0 (k.mode []))).IsRun restComes ∧
      ((x.follow (.collect 0 (k.mode []))).followed restComes).isQuiet = true ∧
      (x.follow (.collect 0 (k.mode []))).arrived 0 restComes = fourDeliveries.tail := by
    intro k
    cases k <;> decide +kernel
  have hgiven : ∀ k : Manner,
      ((x.follow (.collect 0 (k.mode []))).followed restComes).answerOf? 0 =
          some (k.answer firstTwo (some (.status deleted))) ∧
        ((x.follow (.collect 0 (k.mode []))).followed restComes).GivesNothing 0 := by
    intro k
    obtain ⟨hrest, hquiet, harrived⟩ := hcomes k
    have hds : s.queue.toList ++ (x.follow (.collect 0 (k.mode []))).arrived 0 restComes =
        fourDeliveries := by
      rw [hqueue, harrived]
      rfl
    have hcollects := hall k restComes hrest halone hds
    have hanswer := hcollects.given hquiet (Or.inr (Or.inr (by decide)))
    rw [show (x.collectCall 0 upToThree due k).id = 0 from hcallers.2] at hanswer
    refine ⟨hanswer, hcollects.last fun hn => ?_⟩
    cases (hcallers.2 ▸ hanswer).symm.trans hn
  exact ⟨hrun, s, due, hs, hp, hb, hu, (hcomes .batch).1, (hcomes .stream).1,
    (hgiven .batch).1, (hgiven .stream).1, (hgiven .batch).2, (hgiven .stream).2,
    (honce (.collect 0 (.batch []) :: restComes)).1⟩

end DemandFlow.Exchange
