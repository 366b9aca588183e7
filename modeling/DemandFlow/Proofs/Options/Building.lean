import DemandFlow.Options

/-
  What settings lead to. They have to meet requirements, in a fixed order, and the first that is
  not met is the fault; settings that meet all are taken over, with defaults for what is not given.
  A heartbeat that is not given has nothing to meet: half of the expiry, held at the longest
  heartbeat, is always in order. It is computed as a percentage first, though, and where that
  passes the longest span there is neither a fault nor an answer. `built_iff` says that this is
  the only exception.
-/

namespace DemandFlow

/-! ## Requirements -/

/-- Something that settings have to meet, and the fault of those that do not. -/
structure Requirement where
  isMet : Bool
  fault : ConfigError

/-- The fault of the first requirement that is not met. -/
def firstFault : List Requirement → Option ConfigError
  | [] => none
  | r :: rs => if r.isMet then firstFault rs else some r.fault

theorem firstFault_of_met {r : Requirement} (h : r.isMet = true) (rs : List Requirement) :
    firstFault (r :: rs) = firstFault rs := if_pos h

theorem firstFault_of_not {r : Requirement} (h : r.isMet = false) (rs : List Requirement) :
    firstFault (r :: rs) = some r.fault := if_neg (ne_true_of_eq_false h)

/-- What building comes to when `rs` are to be met: the first fault, or else options that are as
`describes` says. -/
def Built {α : Type} (rs : List Requirement) (describes : α → Prop) (r : Except Failure α) : Prop :=
  match firstFault rs with
  | some c => r = .error (.ofConfig c)
  | none => ∃ o, r = .ok o ∧ describes o

section Built

variable {α : Type} {rs : List Requirement} {P : α → Prop} {r : Except Failure α} {q : Requirement}

theorem built_of_met (h : q.isMet = true) : Built (q :: rs) P r ↔ Built rs P r := by
  unfold Built
  rw [firstFault_of_met h]

theorem built_of_not (h : q.isMet = false) :
    Built (q :: rs) P r ↔ r = .error (.ofConfig q.fault) := by
  unfold Built
  rw [firstFault_of_not h]

/-- Who ends without an answer has not built anything. -/
theorem not_built_overflow : ¬Built rs P (.error .overflow) := by
  unfold Built
  cases firstFault rs with
  | none => exact fun ⟨_, h, _⟩ => nomatch h
  | some c => exact fun h => nomatch h

end Built

/-! ## Timing -/

namespace Timing

variable {e h : Span} {expires heartbeat : Option Span}

/-- What an expiry and a heartbeat have to meet. -/
def requirements (e : Span) : Option Span → List Requirement
  | none => [⟨decide (leastExpires.nanos ≤ e.nanos), .expiresTooShort leastExpires e⟩]
  | some h =>
    [⟨decide (leastExpires.nanos ≤ e.nanos), .expiresTooShort leastExpires e⟩,
      ⟨decide (h.nanos ≤ mostHeartbeat.nanos), .heartbeatTooLong mostHeartbeat h⟩,
      ⟨decide (h.nanos ≤ e.nanos / 2), .heartbeatExceedsExpiry h e⟩]

/-- The heartbeat in effect. -/
def heartbeatFor (e : Span) (heartbeat : Option Span) : Span :=
  heartbeat.getD ((e.part 2).shorter mostHeartbeat)

/-- No heartbeat is given, and the percentage of the expiry passes the longest span. -/
def Overflows (e : Span) (heartbeat : Option Span) : Prop :=
  heartbeat = none ∧ Span.top < e.nanos * heartbeatPercent

/-- Both roundings of an expiry come to its half. -/
theorem derivedHeartbeat_eq (hle : e.nanos * heartbeatPercent ≤ Span.top) :
    derivedHeartbeat e = some ((e.part 2).shorter mostHeartbeat) := by
  have hhalf : e.nanos * heartbeatPercent / 100 = e.nanos / 2 := by
    unfold heartbeatPercent
    omega
  unfold derivedHeartbeat Span.times? Span.part
  rw [if_pos hle, Option.map_some, hhalf]

theorem derivedHeartbeat_eq_none (hlt : Span.top < e.nanos * heartbeatPercent) :
    derivedHeartbeat e = none := by
  unfold derivedHeartbeat Span.times?
  rw [if_neg (Nat.not_le_of_lt hlt), Option.map_none]

theorem shorter_le_left (a b : Span) : (a.shorter b).nanos ≤ a.nanos := by
  unfold Span.shorter
  split <;> omega

theorem shorter_le_right (a b : Span) : (a.shorter b).nanos ≤ b.nanos := by
  unfold Span.shorter
  split <;> omega

/-- The check reports the first requirement that is not met. -/
theorem check_eq (e h : Span) :
    check e h = match firstFault (requirements e (some h)) with
      | some c => .error c
      | none => .ok () := by
  unfold check requirements firstFault Span.part
  dsimp only
  by_cases he : leastExpires.nanos ≤ e.nanos
  · rw [if_neg (Nat.not_lt_of_le he), if_pos (decide_eq_true he)]
    unfold firstFault
    dsimp only
    by_cases hm : h.nanos ≤ mostHeartbeat.nanos
    · rw [if_neg (Nat.not_lt_of_le hm), if_pos (decide_eq_true hm)]
      unfold firstFault
      dsimp only
      by_cases hx : h.nanos ≤ e.nanos / 2
      · rw [if_neg (Nat.not_lt_of_le hx), if_pos (decide_eq_true hx)]
        rfl
      · rw [if_pos (Nat.lt_of_not_le hx), if_neg (fun hd => hx (of_decide_eq_true hd))]
    · rw [if_pos (Nat.lt_of_not_le hm), if_neg (fun hd => hm (of_decide_eq_true hd))]
  · rw [if_pos (Nat.lt_of_not_le he), if_neg (fun hd => he (of_decide_eq_true hd))]

/-- A heartbeat that is not given meets what a given one has to. -/
theorem firstFault_derived (e : Span) :
    firstFault (requirements e (some ((e.part 2).shorter mostHeartbeat))) =
      firstFault (requirements e none) := by
  have hm := shorter_le_right (e.part 2) mostHeartbeat
  have hx := shorter_le_left (e.part 2) mostHeartbeat
  unfold requirements firstFault
  dsimp only
  split
  · rw [firstFault_of_met (decide_eq_true hm), firstFault_of_met (decide_eq_true hx)]
  · rfl

/-- The settings of expiry and heartbeat come to what they have to, unless the percentage passes
the longest span. -/
theorem resolve_eq (hno : ¬Overflows (expires.getD Defaults.expires) heartbeat) :
    resolve expires heartbeat =
      match firstFault (requirements (expires.getD Defaults.expires) heartbeat) with
      | some c => .error (.ofConfig c)
      | none => .ok (expires.getD Defaults.expires,
          heartbeatFor (expires.getD Defaults.expires) heartbeat) := by
  unfold resolve
  cases heartbeat with
  | some h =>
    dsimp only [Option.some_or]
    rw [check_eq]
    cases firstFault (requirements (expires.getD Defaults.expires) (some h)) <;> rfl
  | none =>
    have hle := Nat.le_of_not_lt fun hlt => hno ⟨rfl, hlt⟩
    dsimp only
    rw [Option.none_or, derivedHeartbeat_eq hle]
    dsimp only
    rw [check_eq, firstFault_derived]
    cases firstFault (requirements (expires.getD Defaults.expires) none) <;> rfl

theorem resolve_of_overflows (h : Overflows (expires.getD Defaults.expires) heartbeat) :
    resolve expires heartbeat = .error .overflow := by
  obtain ⟨rfl, hlt⟩ := h
  unfold resolve
  dsimp only
  rw [Option.none_or, derivedHeartbeat_eq_none hlt]

/-- Options that take over the timing are built exactly if the percentage does not pass the longest
span. -/
theorem built_resolve {α : Type} {P : α → Prop} (make : Span → Span → α)
    (hmake : P (make (expires.getD Defaults.expires)
      (heartbeatFor (expires.getD Defaults.expires) heartbeat))) :
    Built (requirements (expires.getD Defaults.expires) heartbeat) P
        (match resolve expires heartbeat with
          | .error f => .error f
          | .ok (e, h) => .ok (make e h)) ↔
      ¬Overflows (expires.getD Defaults.expires) heartbeat := by
  constructor
  · intro hb ho
    rw [resolve_of_overflows ho] at hb
    exact not_built_overflow hb
  · intro hno
    rw [resolve_eq hno]
    unfold Built
    cases firstFault (requirements (expires.getD Defaults.expires) heartbeat) with
    | some c => rfl
    | none => exact ⟨_, rfl, hmake⟩

end Timing

/-! ## Options of continuous consumption -/

namespace ConsumeOptions.Settings

/-- What the settings have to meet. -/
def requirements (s : Settings) : List Requirement :=
  let size := s.batchSize.getD Defaults.batchSize
  let percent := s.threshold.getD Defaults.threshold
  ⟨decide (0 < size), .invalidBatchSize size⟩ ::
    ⟨decide (0 < percent ∧ percent ≤ 100), .invalidThreshold percent⟩ ::
      Timing.requirements (s.expires.getD Defaults.expires) s.heartbeat

/-- The options that the settings describe. -/
structure Describes (s : Settings) (o : ConsumeOptions) : Prop where
  batchSize : o.batchSize = s.batchSize.getD Defaults.batchSize
  batchBytes : o.batchBytes = s.batchBytes.getD 0
  expires : o.expires = s.expires.getD Defaults.expires
  heartbeat : o.heartbeat = Timing.heartbeatFor (s.expires.getD Defaults.expires) s.heartbeat
  threshold : o.threshold = s.threshold.getD Defaults.threshold

/-- Size and threshold are in order, and the percentage of the expiry passes the longest span. -/
def Overflows (s : Settings) : Prop :=
  0 < s.batchSize.getD Defaults.batchSize ∧
    (0 < s.threshold.getD Defaults.threshold ∧ s.threshold.getD Defaults.threshold ≤ 100) ∧
      Timing.Overflows (s.expires.getD Defaults.expires) s.heartbeat

theorem built_build_iff (s : Settings) :
    Built s.requirements s.Describes s.build ↔ ¬s.Overflows := by
  unfold requirements build Overflows
  dsimp only
  by_cases hs : 0 < s.batchSize.getD Defaults.batchSize
  · rw [built_of_met (decide_eq_true hs), dif_pos hs, and_iff_right hs]
    by_cases ht : 0 < s.threshold.getD Defaults.threshold ∧
        s.threshold.getD Defaults.threshold ≤ 100
    · rw [built_of_met (decide_eq_true ht), dif_pos ht, and_iff_right ht]
      let make (e h : Span) : ConsumeOptions := ⟨_, s.batchBytes.getD 0, e, h, _, hs, ht.1, ht.2⟩
      have hmake : s.Describes (make (s.expires.getD Defaults.expires)
          (Timing.heartbeatFor (s.expires.getD Defaults.expires) s.heartbeat)) :=
        ⟨rfl, rfl, rfl, rfl, rfl⟩
      exact Timing.built_resolve make hmake
    · rw [built_of_not (decide_eq_false ht), dif_neg ht]
      exact iff_of_true rfl fun h => ht h.1
  · rw [built_of_not (decide_eq_false hs), dif_neg hs]
    exact iff_of_true rfl fun h => hs h.1

theorem build_of_overflows {s : Settings} (h : s.Overflows) : s.build = .error .overflow := by
  obtain ⟨hs, ht, ho⟩ := h
  unfold build
  dsimp only
  rw [dif_pos hs, dif_pos ht, Timing.resolve_of_overflows ho]

end ConsumeOptions.Settings

/-! ## Options of a fetch -/

namespace FetchOptions.Settings

/-- What the settings have to meet. -/
def requirements (s : Settings) : List Requirement :=
  let most := s.maxMessages.getD Defaults.fetchMessages
  ⟨decide (0 < most), .invalidBatchSize most⟩ ::
    Timing.requirements (s.expires.getD Defaults.expires) s.heartbeat

/-- The options that the settings describe. -/
structure Describes (s : Settings) (o : FetchOptions) : Prop where
  maxMessages : o.maxMessages = s.maxMessages.getD Defaults.fetchMessages
  maxBytes : o.maxBytes = s.maxBytes.getD 0
  expires : o.expires = s.expires.getD Defaults.expires
  heartbeat : o.heartbeat = Timing.heartbeatFor (s.expires.getD Defaults.expires) s.heartbeat

/-- The number of messages is in order, and the percentage of the expiry passes the longest span. -/
def Overflows (s : Settings) : Prop :=
  0 < s.maxMessages.getD Defaults.fetchMessages ∧
    Timing.Overflows (s.expires.getD Defaults.expires) s.heartbeat

theorem built_build_iff (s : Settings) :
    Built s.requirements s.Describes s.build ↔ ¬s.Overflows := by
  unfold requirements build Overflows
  dsimp only
  by_cases hs : 0 < s.maxMessages.getD Defaults.fetchMessages
  · rw [built_of_met (decide_eq_true hs), dif_pos hs, and_iff_right hs]
    let make (e h : Span) : FetchOptions := ⟨_, s.maxBytes.getD 0, e, h, hs⟩
    have hmake : s.Describes (make (s.expires.getD Defaults.expires)
        (Timing.heartbeatFor (s.expires.getD Defaults.expires) s.heartbeat)) :=
      ⟨rfl, rfl, rfl, rfl⟩
    exact Timing.built_resolve make hmake
  · rw [built_of_not (decide_eq_false hs), dif_neg hs]
    exact iff_of_true rfl fun h => hs h.1

theorem build_of_overflows {s : Settings} (h : s.Overflows) : s.build = .error .overflow := by
  obtain ⟨hs, ho⟩ := h
  unfold build
  dsimp only
  rw [dif_pos hs, Timing.resolve_of_overflows ho]

end FetchOptions.Settings

/-- Building options comes to what the settings describe, or to the fault of the first requirement
that is not met, exactly if the percentage of the expiry does not pass the longest span where no
heartbeat is given. Where it does, there is no answer. -/
theorem built_iff (s : ConsumeOptions.Settings) (t : FetchOptions.Settings) :
    ((Built s.requirements s.Describes s.build ↔ ¬s.Overflows) ∧
      (s.Overflows → s.build = .error .overflow)) ∧
    (Built t.requirements t.Describes t.build ↔ ¬t.Overflows) ∧
      (t.Overflows → t.build = .error .overflow) :=
  ⟨⟨s.built_build_iff, s.build_of_overflows⟩, t.built_build_iff, t.build_of_overflows⟩

/-- The longest expiry, without a heartbeat of its own, meets all requirements and is not
answered. -/
def longestExpiry : ConsumeOptions.Settings :=
  { ConsumeOptions.Settings.none with expires := some ⟨Span.top⟩ }

theorem longestExpiry_not_built :
    firstFault longestExpiry.requirements = none ∧ longestExpiry.build = .error .overflow ∧
      ¬Built longestExpiry.requirements longestExpiry.Describes longestExpiry.build := by
  have hbuild : longestExpiry.build = .error .overflow :=
    ConsumeOptions.Settings.build_of_overflows
      ⟨by decide, by decide, rfl, show Span.top < Span.top * Timing.heartbeatPercent by decide⟩
  refine ⟨by decide, hbuild, ?_⟩
  rw [hbuild]
  exact not_built_overflow

end DemandFlow
