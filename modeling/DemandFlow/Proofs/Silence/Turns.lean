import DemandFlow.Proofs.Silence.Ages
import DemandFlow.Proofs.Silence.Pipe

/-
  What one move means for the silence of a subscription. Alarms that are raised join those that
  wait, alarms that the listener is told of leave them, and when a frame is taken in, the
  subscription was last seen now. `passes_next` says so for every move.
-/

namespace DemandFlow

/-- A subscription has aged by what became known of it and by the alarms that were raised. -/
structure Subscription.Passes (now : Nat) (s : Subscription) (new : List Deed)
    (raised : List Span) (s' : Subscription) : Prop extends s.Matures now s' where
  alarms : silencesTold new ++ s'.alarms = s.alarms ++ raised
  took : framesTook new ≠ [] → s'.tracker.monitor.lastSeen = now

theorem Subscription.Ages.passes {now : Nat} {s s' : Subscription} (h : s.Ages now s')
    {new : List Deed} (ht : silencesTold new = [])
    (hs : framesTook new ≠ [] → s'.tracker.monitor.lastSeen = now) :
    s.Passes now new [] s' := by
  refine ⟨h.toMatures, ?_, hs⟩
  rw [ht, List.append_nil]
  exact h.alarms

theorem filterMap_deedsOf {β : Type} {g : Deed → Option β} {past : List (Nat × Deed)}
    (h : ∀ p ∈ past, g p.2 = none) (i : Nat) : (deedsOf i past).filterMap g = [] := by
  refine List.filterMap_eq_nil_iff.2 fun d hd => ?_
  obtain ⟨p, hp, rfl⟩ := List.mem_map.1 hd
  exact h p (List.mem_filter.1 hp).1

theorem quiet_frameDeeds (s : Subscription) (f : Frame) : silencesTold (s.frameDeeds f) = [] := by
  obtain ⟨_, htold, _, _⟩ := quiet_hears s f
  unfold Subscription.frameDeeds
  rw [silencesTold_append]
  show silencesTold (s.hears f) ++ _ = []
  rw [htold]
  cases s.asks f <;> rfl

namespace Exchange

variable {x y : Exchange}

/-! ## Deeds -/

/-- A deed of which neither a worker nor a listener learns anything. -/
def IsQuiet (p : Nat × Deed) : Prop := p.2.took? = none ∧ p.2.silence? = none

/-- Only in the turn of a worker a frame is taken in or a listener hears of a silence. -/
theorem quiet_deeds (x : Exchange) {m : Move} (hm : ∀ i, m ≠ .turn (.worker i)) :
    ∀ q ∈ x.deeds m, IsQuiet q := by
  intro q hq
  cases arises_of_mem hq with
  | worked => exact absurd rfl (hm _)
  | _ => exact ⟨rfl, rfl⟩

/-! ## The turn of a worker -/

/-- The worker takes in an alarm, or a frame, or nothing. -/
theorem worker_cases (x : Exchange) (i : Nat) :
    (∃ s d rest, x.TakesAlarm i s d rest ∧ x.workerDeeds i = [.told (.alarm s.inbox d)]) ∨
    (∀ s d rest, ¬x.TakesAlarm i s d rest) ∧
      (x.workerDeeds i = [] ∨ ∃ s f, x.subs[i]? = some s ∧ x.workerDeeds i = s.frameDeeds f ∧
        Ensues false (x.manage i) (x.workerStep i).1 ∧
          ∃ u, (x.manage i).subs[i]? = some u ∧ u.tracker.monitor.lastSeen = x.now) := by
  by_cases ha : ∃ s d rest, x.TakesAlarm i s d rest
  · obtain ⟨s, d, rest, ha⟩ := ha
    refine Or.inl ⟨s, d, rest, ha, ?_⟩
    obtain ⟨feed, hf, hp, hw⟩ := ha.feed
    unfold workerDeeds
    rw [ha.sub]
    dsimp only
    rw [if_pos ⟨ha.opened, ha.worker⟩]
    unfold readDeeds
    rw [hf, Option.map_some, hp, hw, ha.alarms]
  · refine Or.inr ⟨fun s d rest h => ha ⟨s, d, rest, h⟩, ?_⟩
    unfold workerDeeds
    cases hs : x.subs[i]? with
    | none => exact Or.inl rfl
    | some s =>
      dsimp only
      split
      · rename_i hc
        unfold readDeeds
        cases hf : x.feeds[s.feed]? with
        | none => exact Or.inl rfl
        | some feed =>
          rw [Option.map_some]
          cases hp : feed.frames.pop? with
          | some q =>
            refine Or.inr ⟨s, q.1, rfl, rfl, ?_, ?_⟩
            · obtain ⟨hmanage, hread⟩ := readStep_of_frame hs hf hp
              have hstep : x.workerStep i = x.readStep i s := by
                unfold workerStep
                rw [hs]
                dsimp only
                rw [hc.2]
                dsimp only
                rw [if_neg (ne_true_of_eq_false hc.1)]
              rw [hstep, hread]
              exact Ensues.takeFrame (hmanage ▸ .refl)
            · obtain ⟨hmanage, _⟩ := readStep_of_frame hs hf hp
              have hsubs : (x.manage i).subs = x.subs.modify i fun u =>
                  { u with tracker := s.tracker.account x.now q.1 } := by
                rw [hmanage]
                refine (congrArg Core.subs (core_account (x.popped s.feed q.2) i s q.1)).trans ?_
                rw [core_popped]
                rfl
              refine ⟨{ s with tracker := s.tracker.account x.now q.1 }, ?_,
                (s.tracker.monitor_account x.now q.1).2.1⟩
              rw [hsubs, Array.getElem?_modify, if_pos rfl, hs]
              rfl
          | none =>
            cases hw : feed.writing with
            | false => exact Or.inl rfl
            | true =>
              dsimp only
              cases hal : s.alarms with
              | nil => exact Or.inl rfl
              | cons d rest => exact absurd ⟨s, d, rest, hs, hc.1, hc.2, ⟨feed, hf, hp, hw⟩, hal⟩ ha
      · exact Or.inl rfl

/-! ## Moves -/

/-- The alarm that a move raises: its subscription, the period that is over, and the silence. -/
def raised (x : Exchange) : Move → List (Nat × Span × Span)
  | .turn (.alarm i) => (x.raises? i).toList.map (i, ·)
  | _ => []

theorem raises?_of_raised {x : Exchange} {m : Move} {r : Nat × Span × Span}
    (h : r ∈ x.raised m) : x.raises? r.1 = some r.2 := by
  cases m with
  | turn t =>
    cases t with
    | alarm i =>
      obtain ⟨a, ha, rfl⟩ := List.mem_map.1 h
      exact Option.mem_toList.1 ha
    | _ => cases h
  | _ => cases h

/-- The silences among some alarms for one subscription. -/
def silencesOf (j : Nat) (as : List (Nat × Span × Span)) : List Span :=
  (as.filter fun a => a.1 = j).map fun a => a.2.2

theorem silencesOf_self (j : Nat) (a : Option (Span × Span)) :
    silencesOf j (a.toList.map (j, ·)) = (a.map Prod.snd).toList := by
  cases a <;> simp [silencesOf]

theorem silencesOf_other {i j : Nat} (h : i ≠ j) (a : Option (Span × Span)) :
    silencesOf j (a.toList.map (i, ·)) = [] := by
  cases a <;> simp [silencesOf, h]

/-- A subscription after a move has aged, or was opened by it. -/
def Passed (x : Exchange) (m : Move) (j : Nat) (s' : Subscription) : Prop :=
  (∃ s, x.subs[j]? = some s ∧
    s.Passes x.now (deedsOf j (x.deeds m)) (silencesOf j (x.raised m)) s') ∨
  x.subs.size ≤ j ∧ s'.IsYoung x.now ∧ silencesTold (deedsOf j (x.deeds m)) = [] ∧
    framesTook (deedsOf j (x.deeds m)) = [] ∧ silencesOf j (x.raised m) = []

theorem passed_of_older {m : Move} (h : Older x (x.next m)) (hq : ∀ q ∈ x.deeds m, IsQuiet q)
    (hr : x.raised m = []) {j : Nat} {s' : Subscription} (hs' : (x.next m).subs[j]? = some s') :
    x.Passed m j s' := by
  have htold : silencesTold (deedsOf j (x.deeds m)) = [] :=
    filterMap_deedsOf (fun q hq' => (hq q hq').2) j
  have htook : framesTook (deedsOf j (x.deeds m)) = [] :=
    filterMap_deedsOf (fun q hq' => (hq q hq').1) j
  have hnone : silencesOf j (x.raised m) = [] := by
    rw [hr]
    rfl
  rcases h.sub j s' hs' with ⟨s, hs, ha⟩ | ⟨hj, hy⟩
  · refine Or.inl ⟨s, hs, ?_⟩
    rw [hnone]
    exact ha.passes htold fun hn => absurd htook hn
  · exact Or.inr ⟨hj, hy, htold, htook, hnone⟩

theorem passed_worker (x : Exchange) (i : Nat) {j : Nat} {s' : Subscription}
    (hs' : (x.next (.turn (.worker i))).subs[j]? = some s') :
    x.Passed (.turn (.worker i)) j s' := by
  have hdeeds : x.deeds (.turn (.worker i)) = (x.workerDeeds i).map (i, ·) := rfl
  rcases x.worker_cases i with ⟨s, d, rest, ha, hd⟩ | ⟨hno, hd | ⟨s, f, hs, hd, he, u, hu, hn⟩⟩
  · -- an alarm is taken in, and nothing else happens to the alarms
    let z := x.modifySub i fun s => { s with alarms := rest }
    have hz : Older z (x.next (.turn (.worker i))) := by
      show Older z (x.workerStep i).1
      rw [ha.workerStep]
      have htold : Ensues false z (z.takeAlarm i s d) := Ensues.refl.takeAlarm i s d
      exact htold.older
    have hother : j ≠ i → deedsOf j (x.deeds (.turn (.worker i))) = [] := fun hj => by
      rw [hdeeds, deedsOf_other hj]
    rcases hz.sub j s' hs' with ⟨u, hu, hages⟩ | ⟨hj, hy⟩
    · refine Or.inl ?_
      rcases getElem?_modify_eq_some hu with ⟨v, rfl, hv, rfl⟩ | ⟨hij, hsub⟩
      · cases ha.sub.symm.trans hv
        refine ⟨s, ha.sub, ⟨hages.tracker, hages.closed⟩, ?_, ?_⟩
        · rw [hdeeds, deedsOf_self, hd, hages.alarms, ha.alarms]
          exact (List.append_nil (d :: rest)).symm
        · rw [hdeeds, deedsOf_self, hd]
          exact fun hne => absurd rfl hne
      · refine ⟨u, hsub, ?_⟩
        rw [hother (Ne.symm hij)]
        exact hages.passes rfl fun hne => absurd rfl hne
    · have hsize : z.subs.size = x.subs.size := Array.size_modify
      have hle : x.subs.size ≤ j := hsize ▸ hj
      have hlt : i < x.subs.size := (Array.getElem?_eq_some_iff.1 ha.sub).1
      refine Or.inr ⟨hle, hy, ?_, ?_, rfl⟩ <;> rw [hother (by omega)] <;> rfl
  · refine passed_of_older (Ensues.next (m := .turn (.worker i)) hno).older ?_ rfl hs'
    rw [hdeeds, hd]
    intro q hq
    cases hq
  · have hlt : i < x.subs.size := (Array.getElem?_eq_some_iff.1 hs).1
    have hself : deedsOf i (x.deeds (.turn (.worker i))) = s.frameDeeds f := by
      rw [hdeeds, deedsOf_self, hd]
    have hother : j ≠ i → deedsOf j (x.deeds (.turn (.worker i))) = [] := fun hj => by
      rw [hdeeds, deedsOf_other hj]
    rcases (Ensues.next (m := .turn (.worker i)) hno).older.sub j s' hs' with
      ⟨t, ht, hages⟩ | ⟨hj, hy⟩
    · refine Or.inl ⟨t, ht, ?_⟩
      by_cases hij : j = i
      · subst hij
        rw [hself]
        refine hages.passes (quiet_frameDeeds s f) fun _ => ?_
        -- the frame was seen now, and what follows on it does not look back
        have hnow : (x.manage j).now = x.now := (older_manage x j).now
        rcases he.older.sub j s' hs' with ⟨v, hv, hages'⟩ | ⟨hj, _⟩
        · cases hu.symm.trans hv
          rcases hages'.tracker.seen with hseen | hseen
          · exact hseen.trans hn
          · exact hseen.trans hnow
        · have := (Array.getElem?_eq_some_iff.1 hu).1
          omega
      · rw [hother hij]
        exact hages.passes rfl fun hne => absurd rfl hne
    · refine Or.inr ⟨hj, hy, ?_, ?_, rfl⟩ <;> rw [hother (by omega)] <;> rfl

theorem passed_alarm (x : Exchange) (i : Nat) {j : Nat} {s' : Subscription}
    (hs' : (x.next (.turn (.alarm i))).subs[j]? = some s') :
    x.Passed (.turn (.alarm i)) j s' := by
  rcases x.watch_cases i with ⟨p, d, hr, _, hsubs⟩ | ⟨hr, ho⟩
  · have hsub : (x.alarmStep i).1.subs[j]? = some s' := hs'
    have hraised : x.raised (.turn (.alarm i)) = (some (p, d)).toList.map (i, ·) := by
      rw [← hr]
      rfl
    refine Or.inl ?_
    rw [hraised]
    rw [hsubs] at hsub
    rcases getElem?_modify_eq_some hsub with ⟨s, rfl, hs, rfl⟩ | ⟨hij, hsub⟩
    · refine ⟨s, hs, ?_⟩
      rw [silencesOf_self]
      exact ⟨⟨Tracker.ages_seen x.now s.tracker, Or.inl⟩, rfl, fun hne => absurd rfl hne⟩
    · refine ⟨s', hsub, ?_⟩
      rw [silencesOf_other hij]
      exact (s'.ages_refl x.now).passes rfl fun hne => absurd rfl hne
  · refine passed_of_older ho ?_ ?_ hs'
    · intro q hq
      cases hq
    · show (x.raises? i).toList.map _ = []
      rw [hr]
      rfl

/-- Every move passes over a subscription. -/
theorem passed_next (x : Exchange) (m : Move) {j : Nat} {s' : Subscription}
    (hs' : (x.next m).subs[j]? = some s') : x.Passed m j s' := by
  have hstill : (∀ i, m ≠ .turn (.worker i)) → x.IsStill m → x.raised m = [] →
      x.Passed m j s' := fun hw hm hr =>
    passed_of_older (Ensues.next hm).older (x.quiet_deeds hw) hr hs'
  cases m with
  | clock now =>
    have hsub : x.subs[j]? = some s' := by
      have hring : (x.ring now).subs = x.subs := subs_wakeAll _ _
      rw [← hring]
      exact hs'
    exact Or.inl ⟨s', hsub, (s'.ages_refl x.now).passes rfl fun hne => absurd rfl hne⟩
  | turn t =>
    cases t with
    | alarm i => exact x.passed_alarm i hs'
    | worker i => exact x.passed_worker i hs'
    | broker => exact hstill (fun i h => by cases h) trivial rfl
    | caller id => exact hstill (fun i h => by cases h) trivial rfl
    | farewell i => exact hstill (fun i h => by cases h) trivial rfl
  | _ => exact hstill (fun i h => by cases h) trivial rfl

/-! ## How many subscriptions there are -/

theorem size_alarmStep (x : Exchange) (i : Nat) :
    (x.alarmStep i).1.subs.size = x.subs.size := by
  unfold alarmStep
  split
  · rfl
  · split
    · split
      · have hend : Ensues false x ((x.note Journal.monitorStopped).endAlarm i) :=
          (Ensues.refl.note _).endAlarm i
        exact hend.size
      · exact Array.size_modify
      · exact Array.size_modify
      · rw [subs_wake]
        exact Array.size_modify.trans Array.size_modify
      · have hend : Ensues false x (x.endAlarm i) := Ensues.refl.endAlarm i
        exact hend.size
    · rfl

/-- Unless a move opens a subscription there are as many as before. -/
theorem size_next (x : Exchange) {m : Move} (hm : m.mayOpen = false) :
    (x.next m).subs.size = x.subs.size := by
  have hstill : x.IsStill m → (x.next m).subs.size = x.subs.size := fun h => by
    have hn := Ensues.next h
    rw [hm] at hn
    exact hn.size
  cases m with
  | clock now => exact congrArg Array.size (subs_wakeAll _ _)
  | turn t =>
    cases t with
    | alarm i => exact x.size_alarmStep i
    | worker i =>
      rcases x.worker_cases i with ⟨s, d, rest, ha, _⟩ | ⟨hno, _⟩
      · have htold : Ensues false (x.modifySub i fun s => { s with alarms := rest })
            (x.next (.turn (.worker i))) := by
          show Ensues false _ (x.workerStep i).1
          rw [ha.workerStep]
          exact Ensues.refl.takeAlarm i s d
        exact htold.size.trans Array.size_modify
      · exact hstill hno
    | broker | caller _ | farewell _ => exact hstill trivial
  | _ => exact hstill trivial

end Exchange

end DemandFlow
