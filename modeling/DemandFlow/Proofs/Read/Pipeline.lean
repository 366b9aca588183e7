import DemandFlow.Proofs.Lane.Run

/-
  The pipeline of a manual consumer: frames wait in the feed, one delivery may be held by the
  worker, others wait in the queue. Until the owner leaves, nothing is lost or reordered between
  them, and the listener hears of advice and errors in the order of the frames; afterwards the
  queue is only read.
-/

namespace DemandFlow

/-! ## What becomes of a frame -/

namespace Status

/-- A status that ends a batch: nothing was found, the time is over, or a conflict that says that
the batch is complete or the next message too large. -/
def EndsBatch (s : Status) : Prop :=
  s.code = Code.notFound ∨ s.code = Code.requestTimeout ∨ s.code = Code.conflict ∧
    (s.text = StatusText.batchCompleted ∨ s.text = StatusText.messageTooLarge)

/-- A conflict that says that a limit would be passed. -/
def Advises (s : Status) : Prop := s.code = Code.conflict ∧ isAdvisoryText s.text = true

instance (s : Status) : Decidable s.EndsBatch :=
  inferInstanceAs (Decidable (_ ∨ _ ∨ _ ∧ (_ ∨ _)))

instance (s : Status) : Decidable s.Advises := inferInstanceAs (Decidable (_ ∧ _))

theorem not_advises_of_endsBatch {s : Status} (h : s.EndsBatch) : ¬s.Advises := by
  have hcompleted : isAdvisoryText StatusText.batchCompleted = false := by decide
  have hlarge : isAdvisoryText StatusText.messageTooLarge = false := by decide
  rintro ⟨hc, ha⟩
  rcases h with h | h | ⟨_, h | h⟩
  · rw [h] at hc
    exact absurd hc (by decide)
  · rw [h] at hc
    exact absurd hc (by decide)
  · rw [h, hcompleted] at ha
    cases ha
  · rw [h, hlarge] at ha
    cases ha

/-- What a status that is no heartbeat means. -/
theorem disposition_cases (s : Status) :
    s.EndsBatch ∧ s.disposition = .terminus ∨
      ¬s.EndsBatch ∧ (s.Advises ∧ s.disposition = .warning ∨
        ¬s.Advises ∧ s.disposition = .error) := by
  by_cases he : s.EndsBatch
  · refine Or.inl ⟨he, ?_⟩
    have ha := not_advises_of_endsBatch he
    unfold disposition
    unfold EndsBatch at he
    unfold Advises at ha
    grind
  · refine Or.inr ⟨he, ?_⟩
    unfold disposition
    unfold EndsBatch at he
    unfold Advises
    grind

end Status

namespace Frame

/-- The delivery that a frame becomes: messages are delivered as they are, the ends of batches as
such, heartbeats and advice not at all, and everything else as an error. -/
def image : Frame → Option Delivery
  | .message m => some (.message m)
  | .status s =>
    if s.code = Code.heartbeat then none
    else if s.EndsBatch then some (.terminus s)
    else if s.Advises then none
    else some (.error ⟨s.code, s.text⟩)

/-- What the listener hears of a frame: advice as a warning, and errors. -/
def heardAs (inbox : String) : Frame → Option Notice
  | .message _ => none
  | .status s =>
    if s.code = Code.heartbeat then none
    else if s.EndsBatch then none
    else if s.Advises then some (.warning inbox s)
    else some (.error inbox s)

/-- The worker makes of a frame what it should. -/
theorem delivery?_ofFrame (f : Frame) : (Intake.ofFrame f).delivery? = f.image := by
  cases f with
  | message m => rfl
  | status s =>
    unfold Intake.ofFrame Intake.ofStatus image Status.isHeartbeat
    by_cases hb : s.code = Code.heartbeat
    · simp [hb, Intake.delivery?]
    · rcases Status.disposition_cases s with ⟨he, hd⟩ | ⟨he, ⟨ha, hd⟩ | ⟨ha, hd⟩⟩ <;>
        simp [Intake.delivery?, *]

end Frame

/-! ## What deeds say -/

namespace Delivery

/-- Whether a delivery stands for a frame, and not for silence. -/
def isAwake : Delivery → Bool
  | .liveness _ => false
  | .message _ | .terminus _ | .error _ => true

end Delivery

/-- The deliveries that stand for frames. -/
def awake (ds : List Delivery) : List Delivery := ds.filter Delivery.isAwake

namespace Notice

/-- Whether a notice tells of a frame, and not of silence. -/
def tellsOfFrame : Notice → Bool
  | .warning _ _ | .error _ _ => true
  | .alarm _ _ => false

/-- The inbox that a notice names. -/
def inbox : Notice → String
  | .warning inbox _ | .error inbox _ | .alarm inbox _ => inbox

end Notice

namespace Deed

/-- The frame that came into a feed. -/
def entered? : Deed → Option Frame
  | .sent f | .injected f => some f
  | _ => none

/-- The delivery that a read took. -/
def read? : Deed → Option Delivery
  | .read d => d
  | _ => none

/-- What a listener was told. -/
def told? : Deed → Option Notice
  | .told n => some n
  | _ => none

end Deed

/-- The frames that came into the feed. -/
def framesEntered (past : List Deed) : List Frame := past.filterMap Deed.entered?

/-- The deliveries that were read. -/
def deliveriesRead (past : List Deed) : List Delivery := past.filterMap Deed.read?

/-- What the listener was told of frames. -/
def toldOfFrames (past : List Deed) : List Notice :=
  (past.filterMap Deed.told?).filter Notice.tellsOfFrame

theorem framesEntered_append (past new : List Deed) :
    framesEntered (past ++ new) = framesEntered past ++ framesEntered new := List.filterMap_append

theorem deliveriesRead_append (past new : List Deed) :
    deliveriesRead (past ++ new) = deliveriesRead past ++ deliveriesRead new :=
  List.filterMap_append

namespace Lane

variable {calm : Bool} {L₀ L L' : Lane} {past new : List Deed}

/-! ## Until the owner leaves -/

/-- A consumer that was shut down though its owner has not left is at its end: its worker ended
by itself, at the end of the feed. -/
def EndsAlone (L : Lane) : Prop :=
  L.sub.closed = true → L.sub.claimed = false →
    L.sub.worker = .ended ∧ L.feed.frames.toList = [] ∧ L.feed.reading = false

/-- Between the frames that came and those that are still in the feed, what was managed was read
or waits to be read, and was told. -/
def Flows (past : List Deed) (L : Lane) : Prop :=
  ∃ managed, framesEntered past = managed ++ L.feed.frames.toList ∧
    awake (deliveriesRead past) ++ awake L.sub.undelivered = managed.filterMap Frame.image ∧
    toldOfFrames past = managed.filterMap (Frame.heardAs L.sub.inbox)

/-- What the worker of a consumer that is read holds once it has taken in a frame, -/
theorem undelivered_takes {s : Subscription} (hp : s.purpose.continuous? = none)
    (hw : s.worker = .reading) (now : Nat) (f : Frame) :
    (s.takes now f).undelivered = s.undelivered ++ f.image.toList := by
  unfold Subscription.undelivered Subscription.takes Subscription.after
  dsimp only
  cases hq : s.purpose with
  | continuous c =>
    rw [hq] at hp
    cases hp
  | manual | fetch _ _ =>
    dsimp only
    rw [hw, Frame.delivery?_ofFrame]
    cases f.image <;> simp

/-- and once it has taken in an alarm. -/
theorem undelivered_alarmed {s : Subscription} (hp : s.purpose.continuous? = none)
    (hw : s.worker = .reading) (alarms : List Span) (d : Span) :
    { s with alarms := alarms, worker := s.alarmed d : Subscription }.undelivered =
      s.undelivered ++ [.liveness d] := by
  unfold Subscription.undelivered Subscription.alarmed
  dsimp only
  cases hq : s.purpose with
  | continuous c =>
    rw [hq] at hp
    cases hp
  | manual | fetch _ _ =>
    dsimp only
    rw [hw, List.append_nil]

/-- No frame becomes a delivery of silence. -/
theorem isAwake_of_image {f : Frame} {d : Delivery} (h : f.image = some d) :
    d.isAwake = true := by
  cases f with
  | message m =>
    cases h
    rfl
  | status s =>
    unfold Frame.image at h
    dsimp only at h
    split at h
    · cases h
    · split at h
      · cases h
        rfl
      · split at h
        · cases h
        · cases h
          rfl

/-- A consumer that its owner has left is shut down. -/
def ShutWhenLeft (L : Lane) : Prop := L.sub.claimed = true → L.sub.closed = true

/-- What a manual consumer keeps. -/
structure Orderly (past : List Deed) (L : Lane) : Prop where
  manual : L.sub.purpose = .manual
  alone : L.EndsAlone
  left : L.ShutWhenLeft
  flows : L.sub.claimed = false → Flows past L

end Lane

end DemandFlow
