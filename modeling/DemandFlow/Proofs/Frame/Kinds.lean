import DemandFlow.Proofs.Broker.Steps
import DemandFlow.Proofs.Broker.Owed

/-
  The frames that a broker without limits sends to a consumer: messages, heartbeats, and the
  statuses that end a pull. A consumer asks for more after each message and each end of a pull,
  except where the next message alone passed the budget of the pull.
-/

namespace DemandFlow

open Broker (WaitingPull)

namespace Frame

/-- The message of a frame. -/
def message? : Frame → Option Message
  | .message m => some m
  | .status _ => none

/-- Whether a frame says that the next message alone passes the budget of a pull. -/
def isTooLarge : Frame → Bool
  | .message _ => false
  | .status s => s.isTooLarge

/-- Whether continuous consumption looks at its demand after this frame. -/
def reacts (f : Frame) : Bool :=
  match Intake.ofFrame f with
  | .message _ => true
  | .terminus s => !s.isTooLarge
  | .heartbeat | .warning _ | .error _ => false

/-- A frame that a consumer reacts to, or a heartbeat, or a pull that ended because of a message
that is too large; in each case the accounts settle what the frame stands for. -/
structure Regular (f : Frame) : Prop where
  honest : f.Honest
  kind : f.reacts = true ∨ f.settles = none ∨ f.isTooLarge = true

theorem regular_message (m : Message) : Regular (.message m) := ⟨rfl, Or.inl rfl⟩

/-- What a heartbeat stands for is nothing. -/
theorem weight_of_settles_none {f : Frame} (h : f.Honest) (hs : f.settles = none) :
    f.weight = 0 := by
  unfold Honest at h
  rw [hs] at h
  exact h.symm

theorem isTooLarge_beat :
    isTooLarge (.status (.plain Code.heartbeat StatusText.idleHeartbeat)) = false := by decide

theorem regular_beat : Regular (.status (.plain Code.heartbeat StatusText.idleHeartbeat)) :=
  ⟨honest_plain _ _, Or.inr (Or.inl rfl)⟩

end Frame

namespace Broker

variable {p : WaitingPull}

theorem disposition_closing_timeout (p : WaitingPull) (text : String) :
    (p.closing Code.requestTimeout text).disposition = .terminus := if_pos (Or.inr rfl)

theorem disposition_closing_completed (p : WaitingPull) :
    (p.closing Code.conflict StatusText.batchCompleted).disposition = .terminus := by
  have ha : Status.isAdvisoryText StatusText.batchCompleted = false := by decide
  have hc : (p.closing Code.conflict StatusText.batchCompleted).code = Code.conflict := rfl
  have ht : (p.closing Code.conflict StatusText.batchCompleted).text =
    StatusText.batchCompleted := rfl
  unfold Status.disposition
  rw [hc, ht, ha]
  rfl

theorem isTooLarge_closing_completed (p : WaitingPull) :
    (Frame.status (p.closing Code.conflict StatusText.batchCompleted)).isTooLarge = false := by
  show (Status.plain Code.conflict StatusText.batchCompleted).isTooLarge = false
  decide

theorem isTooLarge_closing_tooLarge (p : WaitingPull) :
    (Frame.status (p.closing Code.conflict StatusText.messageTooLarge)).isTooLarge = true := by
  show (Status.plain Code.conflict StatusText.messageTooLarge).isTooLarge = true
  decide

theorem regular_timeout (h : p.Fits) (text : String) :
    (Frame.status (p.closing Code.requestTimeout text)).Regular := by
  refine ⟨honest_closing h (by decide) text, Or.inl ?_⟩
  have hb : ¬(p.closing Code.requestTimeout text).isHeartbeat = true := Bool.false_ne_true
  unfold Frame.reacts Intake.ofFrame Intake.ofStatus
  dsimp only
  rw [if_neg hb, disposition_closing_timeout]
  rfl

theorem regular_completed (h : p.Fits) :
    (Frame.status (p.closing Code.conflict StatusText.batchCompleted)).Regular := by
  refine ⟨honest_closing h (by decide) _, Or.inl ?_⟩
  have hb : ¬(p.closing Code.conflict StatusText.batchCompleted).isHeartbeat = true :=
    Bool.false_ne_true
  have hl : (p.closing Code.conflict StatusText.batchCompleted).isTooLarge = false :=
    isTooLarge_closing_completed p
  unfold Frame.reacts Intake.ofFrame Intake.ofStatus
  dsimp only
  rw [if_neg hb, disposition_closing_completed]
  dsimp only
  rw [hl]
  rfl

theorem regular_tooLarge (h : p.Fits) :
    (Frame.status (p.closing Code.conflict StatusText.messageTooLarge)).Regular :=
  ⟨honest_closing h (by decide) _, Or.inr (Or.inr (isTooLarge_closing_tooLarge p))⟩

theorem regular_stop (h : p.Fits) :
    (Frame.status (p.closing Code.conflict (State.stopText p))).Regular := by
  unfold State.stopText
  split
  · exact regular_completed h
  · exact regular_tooLarge h

/-- A pull that is stopped was too small from the start only if nothing was handed out for it. -/
theorem begun_of_isTooLarge
    (h : (Frame.status (p.closing Code.conflict (State.stopText p))).isTooLarge = true) :
    p.begun = false := by
  cases hb : p.begun with
  | false => rfl
  | true =>
    unfold State.stopText at h
    rw [hb, if_pos rfl, isTooLarge_closing_completed] at h
    cases h

/-- What is due is no message, is regular, and does not say that a message is too large. -/
theorem regular_due {now : Nat} {f : Frame} (h : p.Fits) (hf : (State.due now p).1 = some f) :
    f.Regular ∧ f.isTooLarge = false ∧ f.message? = none := by
  rcases State.due_cases now p with ⟨he, _⟩ | ⟨t, he⟩ | he
  · rw [he] at hf
    cases hf
    exact ⟨regular_timeout h _, rfl, rfl⟩
  · rw [he] at hf
    cases hf
    exact ⟨Frame.regular_beat, Frame.isTooLarge_beat, rfl⟩
  · rw [he] at hf
    cases hf

end Broker

end DemandFlow
