import DemandFlow.Proofs.Fetch.Opening

/-
  A fetch returns the longest batch that is admitted of what is offered to it, in time, and takes
  just that from the broker with one request.
-/

namespace DemandFlow.Exchange

open Relation (ReflTransGen)

variable {x w : Exchange} {l : Loopback} {s : FetchOptions.Settings} {o : FetchOptions}
  {plan : Timetable}

/-! ## Answers -/

/-- The caller of an errand has its answer once the errand has, and not before. -/
theorem Vacant.answerOf? (h : x.Vacant l) {T : Errand.Terms} {n : Nat} {a : Errand}
    (ha : Errand.Hosted T x.placeOf n a w) :
    w.answerOf? x.nextCaller = if a.stage = .answered then some (.batch a.got) else none := by
  have hnone : x.answers.lookup x.nextCaller = none := by
    rw [List.lookup_eq_none_iff]
    intro p hp
    rw [bne_iff_ne]
    exact Ne.symm (Nat.ne_of_lt (h.answers p hp))
  unfold Exchange.answerOf?
  rw [show w.answers = x.placeOf.answersAt a from congrArg Prod.fst ha.2]
  unfold Errand.Place.answersAt
  cases hst : a.stage with
  | reading | leaving => exact hnone
  | answered =>
    rw [if_pos rfl]
    show (x.answers ++ [(x.nextCaller, Answer.batch a.got)]).lookup x.nextCaller = _
    rw [List.lookup_append, hnone, List.lookup_cons_self]
    rfl

/-! ## The whole fetch -/

/-- A fetch that starts on a vacant exchange is an errand that is offered all that is unread and
all that is published before it expires. -/
theorem Vacant.kept (h : x.Vacant l) (hb : s.build = .ok o) (ho : o.Timed)
    (hplan : plan.StartsAt x.now) (hmiss : ∀ p ∈ plan, p.1 ≠ x.now + o.expires.nanos) :
    ∃ y, x.openFetch s = (y, .ok x.subs.size) ∧
      (y.callBehind (.fetch x.subs.size (.batch []))).2 = x.nextCaller ∧
      Errand.Kept (x.termsOf l o) x.placeOf
        (l.offered ++ stored l.nextSequence (plan.before (x.now + o.expires.nanos)))
        l.nextSequence (x.errandOf l o) plan
        (y.callBehind (.fetch x.subs.size (.batch []))).1 := by
  obtain ⟨t, ht⟩ := ho.exists_issue x.now
  obtain ⟨y, hopen, hdesk, hc⟩ := h.openWith ho ht
  have hhosted := h.hosted ht hdesk hc
  refine ⟨y, ?_, congrArg Prod.snd hdesk, hhosted, Errand.sound_opening ho h.commands h.sizes, ?_,
    hmiss, rfl⟩
  · unfold openFetch
    rw [hb]
    exact hopen
  · rw [hhosted.now]
    exact hplan

/-- A fetch of a batch on a vacant exchange. Whatever is published when, and however the tasks
run, the caller is answered before the fetch has expired, and has then the longest batch that is
admitted of the messages that were unread at the start and those that are published before the
fetch expires; the broker has handed out just that batch, and has seen one request more. -/
theorem fetch_longest (h : x.Vacant l) (hb : s.build = .ok o) (he : o.expires.nanos ≤ Count.top)
    (hbytes : o.maxBytes ≤ Count.top) (hplan : plan.StartsAt x.now)
    (hmiss : ∀ p ∈ plan, p.1 ≠ x.now + o.expires.nanos) :
    ∃ y i z id, x.openFetch s = (y, .ok i) ∧ y.callBehind (.fetch i (.batch [])) = (z, id) ∧
      Inevitable (fun w => (∃ batch, w.answerOf? id = some (.batch batch)) ∧
        w.now ≤ x.now + o.expires.nanos) (plan, z) ∧
      ∀ rest w, ReflTransGen Goes (plan, z) (rest, w) →
        (w.answerOf? id = none ∧ w.now ≤ x.now + o.expires.nanos) ∨
        ∃ batch l', w.answerOf? id = some (.batch batch) ∧
          o.Longest (l.offered ++ stored l.nextSequence (plan.before (x.now + o.expires.nanos)))
            batch ∧
          w.transport = .loopback l' ∧
          l'.broker.cursor = l.broker.cursor + batch.length ∧
          l'.broker.pullLog = l.broker.pullLog ++ [o.request] := by
  have ho := FetchOptions.timed_of_build hb he hbytes
  obtain ⟨y, hopen, hid, hkept⟩ := h.kept hb ho hplan hmiss
  refine ⟨y, x.subs.size, _, x.nextCaller, hopen, Prod.ext rfl hid, ?_, fun rest w hrun => ?_⟩
  · refine (hkept.inevitable ho fun hst => by cases hst).mono fun w hw => ?_
    obtain ⟨n, a, ha, hst, hle⟩ := hw
    exact ⟨⟨a.got, by rw [h.answerOf? ha, if_pos hst]⟩, by rw [ha.now]; exact hle⟩
  · obtain ⟨n, a, ha⟩ := hkept.run ho hrun
    have hanswer := h.answerOf? ha.hosted
    by_cases hst : a.stage = .answered
    · have hleft : a.stage ≠ .reading := fun hr => by
        rw [hst] at hr
        cases hr
      have hl := ha.sound.leaves hleft
      rw [if_pos hst] at hanswer
      obtain ⟨⟨l', feed, u, hh⟩, _⟩ := ha.hosted
      refine Or.inr ⟨a.got, l', hanswer, ha.longest hleft, hh.transport, ?_, ?_⟩
      · rw [hh.served.cursor, hl.got]
        show (l.broker.stream.toList.take l.broker.cursor).length + _ = _
        rw [List.length_take, Array.length_toList, Nat.min_eq_left h.cursor]
      · unfold Broker.State.pullLog
        rw [hh.served.received, hl.received]
        exact List.reverse_cons
    · rw [if_neg hst] at hanswer
      exact Or.inl ⟨hanswer, by rw [ha.hosted.now]; exact ha.sound.early hst⟩

/-- A message that takes twenty bytes once it is stored. -/
def drop : Message := .plain "s" ⟨#[120]⟩

/-- Three such messages in time for a fetch, and one after it has expired. -/
def drops : Timetable :=
  [(0, drop), (2 * Span.nanosPerSecond, drop), (4 * Span.nanosPerSecond, drop),
    (60 * Span.nanosPerSecond, drop)]

/-- Five messages of at most 45 bytes together. -/
def fewBytes : FetchOptions := ⟨5, 45, Defaults.expires, Span.ofSecs 15, Nat.succ_pos 4⟩

theorem longest_drops : fewBytes.Longest
    (stored 1 (drops.before Defaults.expires.nanos)) (stored 1 [drop, drop]) := by
  have hoffer : stored 1 (drops.before Defaults.expires.nanos) =
      stored 1 [drop, drop] ++ stored 3 [drop] := by rfl
  rw [hoffer]
  refine FetchOptions.longest_of_stuck (List.prefix_append _ _) ?_ (fun m hm => ?_) (Or.inl ?_)
  · exact ⟨by decide, fun _ => by decide +kernel⟩
  · rcases List.mem_append.1 hm with hm | hm
    · exact size_pos_of_mem_stored hm
    · exact size_pos_of_mem_stored hm
  · exact Or.inr ⟨_, List.prefix_refl _, by decide, by decide +kernel⟩

theorem fetch_longest_drops :
    (FetchOptions.Settings.ofBytes 45 5).build = .ok fewBytes ∧
    (∀ p ∈ drops, p.1 ≠ 0 + fewBytes.expires.nanos) ∧
    ∃ y i z id, (start (.loopback (.start .default true)) true Defaults.queueCapacity).openFetch
        (.ofBytes 45 5) = (y, .ok i) ∧
      y.callBehind (.fetch i (.batch [])) = (z, id) ∧
      ∀ rest w, ReflTransGen Goes (drops, z) (rest, w) → w.answerOf? id = none ∨
        w.answerOf? id = some (.batch (stored 1 [drop, drop])) := by
  have hbuild : (FetchOptions.Settings.ofBytes 45 5).build = .ok fewBytes := by rfl
  have hmiss : ∀ p ∈ drops, p.1 ≠ 0 + fewBytes.expires.nanos := by decide
  obtain ⟨y, i, z, id, hopen, hcall, _, hrun⟩ := fetch_longest
    (vacant_start World.unlimited_default rfl true Defaults.queueCapacity) hbuild (by decide)
    (by decide) (by simp [drops, Timetable.StartsAt, start, Span.nanosPerSecond]) hmiss
  refine ⟨hbuild, hmiss, y, i, z, id, hopen, hcall, fun rest w hw => ?_⟩
  rcases hrun rest w hw with ⟨hnone, _⟩ | ⟨batch, _, hanswer, hlongest, _⟩
  · exact Or.inl hnone
  · exact Or.inr (hanswer.trans (congrArg (some ∘ Answer.batch) (hlongest.unique longest_drops)))

end DemandFlow.Exchange
