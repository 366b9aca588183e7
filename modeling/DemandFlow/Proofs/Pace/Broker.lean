import DemandFlow.Proofs.Broker.Books
import DemandFlow.Proofs.Frame.Kinds

/-
  What a broker sends, counted against the messages that it sends. A consumer asks for more after
  a message, after a timeout, and after the completion of a pull. Only a pull that has brought a
  message is completed, so in what goes to one inbox no completion lacks a message before it:
  messages are credits and completions debits. Refusals, heartbeats and messages that are too
  large for a pull are neither, and the consumer does not react to them.
-/

namespace DemandFlow

open Broker (WaitingPull)

namespace Frame

/-- Whether a frame ends a pull because its time is over. -/
def isTimeout : Frame → Bool
  | .message _ => false
  | .status s => s.code == Code.requestTimeout

def credit (f : Frame) : Nat := if f.message?.isSome then 1 else 0

/-- A frame that the consumer reacts to, and no message or timeout. -/
def debit (f : Frame) : Nat :=
  if f.reacts = true ∧ f.message? = none ∧ f.isTimeout = false then 1 else 0

/-- The consumer reacts to messages, timeouts and debits. -/
theorem one_le_of_reacts {f : Frame} (h : f.reacts = true) :
    1 ≤ f.credit + f.debit + if f.isTimeout then 1 else 0 := by
  unfold credit debit
  rw [h]
  cases f.message? with
  | some m => simp
  | none => cases f.isTimeout <;> simp

theorem debit_of_not_reacts {f : Frame} (h : f.reacts = false) : f.debit = 0 := by
  unfold debit
  rw [if_neg fun hd => Bool.false_ne_true (h.symm.trans hd.1)]

theorem debit_of_isTimeout {f : Frame} (h : f.isTimeout = true) : f.debit = 0 := by
  unfold debit
  rw [if_neg fun hd => Bool.false_ne_true (hd.2.2.symm.trans h)]

theorem debit_le_one (f : Frame) : f.debit ≤ 1 := by
  unfold debit
  split
  · exact Nat.le_refl _
  · exact Nat.zero_le _

theorem credit_message (m : Message) : (Frame.message m).credit = 1 := rfl

theorem debit_message (m : Message) : (Frame.message m).debit = 0 :=
  if_neg fun h => by cases h.2.1

theorem reacts_of_isTooLarge {f : Frame} (h : f.isTooLarge = true) : f.reacts = false := by
  cases f with
  | message m => cases h
  | status s =>
    have hs : s.isTooLarge = true := h
    have hb : s.isHeartbeat = false := by
      unfold Status.isTooLarge at hs
      rw [Bool.and_eq_true] at hs
      unfold Status.isHeartbeat
      rw [eq_of_beq hs.1]
      rfl
    unfold reacts Intake.ofFrame Intake.ofStatus
    dsimp only
    rw [hb, Status.disposition_of_isTooLarge hs]
    dsimp only
    rw [if_neg Bool.false_ne_true]
    show (!s.isTooLarge) = false
    rw [hs]
    rfl

theorem reacts_beat :
    reacts (.status (.plain Code.heartbeat StatusText.idleHeartbeat)) = false := by decide

/-- A status with advice for the listener changes nothing for the consumer. -/
theorem reacts_of_advice {s : Status} (hb : s.isHeartbeat = false)
    (hd : s.disposition = .warning) : (Frame.status s).reacts = false := by
  unfold reacts Intake.ofFrame Intake.ofStatus
  dsimp only
  rw [hb, hd]
  rfl

end Frame

namespace Broker

/-! ## Refusals -/

/-- A conflict that tells of a limit is advice, whatever the limit is. -/
theorem reacts_conflict (r : PullRequest) {text : String}
    (ht : Status.isAdvisoryText text = true) :
    (Frame.status (refusal r Code.conflict text)).reacts = false := by
  refine Frame.reacts_of_advice rfl ?_
  unfold Status.disposition
  rw [show (refusal r Code.conflict text).code = Code.conflict from rfl,
    show (refusal r Code.conflict text).text = text from rfl, ht]
  rfl

theorem isAdvisoryText_append {text : String} (h : Status.isAdvisoryText text = true)
    (more : String) : Status.isAdvisoryText (text ++ more) = true := by
  unfold Status.isAdvisoryText at h ⊢
  rw [String.toList_append]
  exact List.isPrefixOf_iff_prefix.2
    ((List.isPrefixOf_iff_prefix.1 h).trans (List.prefix_append _ _))

/-- The consumer does not react to a refusal. -/
theorem reacts_of_refusal? {l : Limits} {n : Nat} {r : PullRequest} {s : Status}
    (h : l.refusal? n r = some s) : (Frame.status s).reacts = false := by
  unfold Limits.refusal? at h
  split at h
  · cases h
    show Frame.reacts (.status ((Status.plain Code.badRequest StatusText.badRequest).withHeaders _))
      = false
    rfl
  · split at h
    · cases h
      exact reacts_conflict r (isAdvisoryText_append (isAdvisoryText_append (by decide) _) _)
    · split at h
      · cases h
        exact reacts_conflict r (isAdvisoryText_append (isAdvisoryText_append (by decide) _) _)
      · split at h
        · cases h
          exact reacts_conflict r (isAdvisoryText_append (isAdvisoryText_append (by decide) _) _)
        · split at h
          · cases h
            exact reacts_conflict r (by decide)
          · cases h

/-! ## Solvency -/

/-- From `k` credits on, no debit of these frames lacks a credit, and `n` are left at the end. -/
def Solvent (n : Nat) : Nat → List Frame → Prop
  | k, [] => n ≤ k
  | k, f :: fs => f.debit ≤ k ∧ Solvent n (k - f.debit + f.credit) fs

/-- Frames that are neither credits nor debits. -/
theorem solvent_of_neutral {n k : Nat} {fs : List Frame}
    (h : ∀ f ∈ fs, f.credit = 0 ∧ f.debit = 0) (hn : n ≤ k) : Solvent n k fs := by
  induction fs with
  | nil => exact hn
  | cons f fs ih =>
    obtain ⟨hc, hd⟩ := h f List.mem_cons_self
    refine ⟨hd ▸ Nat.zero_le k, ?_⟩
    rw [hc, hd]
    exact ih fun g hg => h g (List.mem_cons_of_mem _ hg)

theorem Solvent.mono {m n k : Nat} {fs : List Frame} (h : Solvent n k fs) (hm : m ≤ n) :
    Solvent m k fs := by
  induction fs generalizing k with
  | nil => exact Nat.le_trans hm h
  | cons f fs ih => exact ⟨h.1, ih h.2⟩

/-- The frames that are still to be posted to an inbox. -/
def postsFor (inbox : String) (cs : List Chore) : List Frame :=
  ((posts cs).filter fun q => q.1 = inbox).map Prod.snd

/-- How many pulls of an inbox wait that have brought a message. -/
def begunFor (inbox : String) (ps : List WaitingPull) : Nat :=
  ps.countP fun p => p.inbox = inbox ∧ p.begun = true

theorem postsFor_append (inbox : String) (cs ds : List Chore) :
    postsFor inbox (cs ++ ds) = postsFor inbox cs ++ postsFor inbox ds := by
  unfold postsFor
  rw [posts_append, List.filter_append, List.map_append]

theorem postsFor_eq_nil (inbox : String) {cs : List Chore} (h : ∀ c ∈ cs, c.isPost = false) :
    postsFor inbox cs = [] := by
  unfold postsFor
  rw [posts_eq_nil h]
  rfl

theorem postsFor_post (inbox dest : String) (f : Frame) (cs : List Chore) :
    postsFor inbox (.post dest f :: cs) =
      if dest = inbox then f :: postsFor inbox cs else postsFor inbox cs := by
  show (((dest, f) :: posts cs).filter _).map _ = _
  rw [List.filter_cons]
  by_cases h : dest = inbox
  · rw [if_pos h, if_pos (decide_eq_true h)]
    rfl
  · rw [if_neg h, if_neg fun hd => h (of_decide_eq_true hd)]
    rfl

theorem begunFor_cons (inbox : String) (p : WaitingPull) (ps : List WaitingPull) :
    begunFor inbox (p :: ps) =
      begunFor inbox ps + if p.inbox = inbox ∧ p.begun = true then 1 else 0 := by
  unfold begunFor
  rw [List.countP_cons]
  simp only [decide_eq_true_eq]

/-- What a broker does for an inbox is covered: with so many credits left over from the frames that
went out, no completion lacks a message while the inbox is registered, and without that it has no
pulls. Nobody has a pull that does not wait, and nothing is posted before anything was asked for. -/
structure Paced (inbox : String) (k : Nat) (b : State) : Prop where
  tidy : Tidy b.agenda
  patient : ∀ dest, .endNoWait dest ∉ b.agenda
  solvent : b.knows inbox = true → Solvent (begunFor inbox b.waiting) k (postsFor inbox b.agenda)
  strangers : b.knows inbox = false → ∀ p ∈ b.waiting, p.inbox ≠ inbox
  silent : b.received = [] → b.waiting = [] ∧ ∀ c ∈ b.agenda, c.isPost = false

/-- A pull that is stopped is completed only if it brought a message; else the message was too
large for it. -/
theorem debit_stop_le (p : WaitingPull) :
    (Frame.status (p.closing Code.conflict (State.stopText p))).debit ≤
      if p.begun = true then 1 else 0 := by
  split
  · exact Frame.debit_le_one _
  · rename_i hb
    unfold State.stopText
    rw [if_neg hb]
    exact Nat.le_of_eq (Frame.debit_of_not_reacts
      (Frame.reacts_of_isTooLarge (isTooLarge_closing_tooLarge p)))

/-- A message that is handed out brings the credit for a pull that goes on, or is completed with
it. -/
theorem solvent_handed (inbox : String) {p : WaitingPull} (m : Message) {n k : Nat} (hn : n ≤ k) :
    Solvent (if p.isFilled || p.isSpent then n else
        n + if p.inbox = inbox ∧ p.begun = true then 1 else 0) k
      (postsFor inbox (State.handed p m)) := by
  by_cases hi : p.inbox = inbox
  · have hone := Frame.debit_le_one (.status (p.closing Code.conflict StatusText.batchCompleted))
    have hmore : (if p.inbox = inbox ∧ p.begun = true then 1 else 0) ≤ 1 := by
      split <;> omega
    unfold State.handed
    rw [postsFor_post, if_pos hi]
    refine ⟨by rw [Frame.debit_message]; exact Nat.zero_le k, ?_⟩
    rw [Frame.debit_message, Frame.credit_message, Nat.sub_zero]
    cases p.isFilled with
    | true => exact (by rw [Bool.not_true, Bool.and_false]; exact Nat.le_succ_of_le hn)
    | false =>
      cases p.isSpent with
      | false => exact (Nat.add_le_add hn hmore : n + _ ≤ k + 1)
      | true =>
        show Solvent n (k + 1) (postsFor inbox [.post p.inbox _])
        rw [postsFor_post, if_pos hi]
        exact ⟨by omega, show n ≤ k + 1 - _ + 0 by omega⟩
  · have hnone : postsFor inbox (State.handed p m) = [] := by
      unfold State.handed
      rw [postsFor_post, if_neg hi]
      split
      · rw [postsFor_post, if_neg hi]
        rfl
      · rfl
    rw [hnone, if_neg fun h : p.inbox = inbox ∧ p.begun = true => hi h.1, Nat.add_zero, ite_self]
    exact hn

namespace Paced

variable {inbox : String} {k now : Nat} {b b' : State} {rest : List Chore}

theorem start (l : Limits) (inbox : String) : Paced inbox 0 (.start l) where
  tidy := List.Pairwise.nil
  patient := fun _ h => by cases h
  solvent := fun _ => Nat.le_refl 0
  strangers := fun _ _ h => by cases h
  silent := fun _ => ⟨rfl, fun _ h => by cases h⟩

/-- Posts in front of chores that hand out. -/
theorem of_posts (cs rest : List Chore) (ha : b.agenda = cs ++ rest)
    (hcs : ∀ c ∈ cs, c.isPost = true) (hrest : ∀ c ∈ rest, c = .handOut)
    (hs : b.knows inbox = true → Solvent (begunFor inbox b.waiting) k (postsFor inbox cs))
    (hw : b.knows inbox = false → ∀ p ∈ b.waiting, p.inbox ≠ inbox)
    (hr : b.received = [] → b.waiting = [] ∧ cs = []) : Paced inbox k b := by
  have hno : ∀ c ∈ rest, c.isPost = false := fun c hc => by rw [hrest c hc]; rfl
  refine ⟨?_, fun dest hd => ?_, fun hk => ?_, hw, fun hb => ?_⟩
  · rw [ha]
    exact tidy_posts_append hcs (tidy_of_not_post hno)
  · rw [ha] at hd
    rcases List.mem_append.1 hd with hd | hd
    · cases hcs _ hd
    · cases hrest _ hd
  · rw [ha, postsFor_append, postsFor_eq_nil inbox hno, List.append_nil]
    exact hs hk
  · obtain ⟨hw, hnil⟩ := hr hb
    refine ⟨hw, fun c hc => hno c ?_⟩
    rw [ha, hnil] at hc
    exact hc

/-- Behind a chore that is no post, all are to hand out. -/
theorem handOuts (h : Paced inbox k b) (ha : b.agenda = .handOut :: rest) :
    ∀ c ∈ b.agenda, c = .handOut := by
  intro c hc
  rw [ha] at hc
  rcases List.mem_cons.1 hc with rfl | hc
  · rfl
  · have hpost := not_post_of_tidy (ha ▸ h.tidy) rfl c hc
    cases c with
    | post dest f => cases hpost
    | handOut => rfl
    | endNoWait dest => exact absurd (ha ▸ List.mem_cons_of_mem _ hc) (h.patient dest)

/-- Where no post is left, there are credits for all pulls that have brought a message. -/
theorem begunFor_le (h : Paced inbox k b) (hb : ∀ c ∈ b.agenda, c.isPost = false) :
    begunFor inbox b.waiting ≤ k := by
  cases hk : b.knows inbox with
  | true =>
    have hs := h.solvent hk
    rw [postsFor_eq_nil inbox hb] at hs
    exact hs
  | false =>
    have hnone : begunFor inbox b.waiting = 0 :=
      List.countP_eq_zero.2 fun p hp hd => h.strangers hk p hp (of_decide_eq_true hd).1
    rw [hnone]
    exact Nat.zero_le k

theorem begunFor_le_of_rest (h : Paced inbox k b) (ha : b.agenda = []) :
    begunFor inbox b.waiting ≤ k :=
  h.begunFor_le fun c hc => by cases ha ▸ hc

theorem handOut (h : Paced inbox k b) (now : Nat) (ha : b.agenda = .handOut :: rest) :
    Paced inbox k ({ b with agenda := rest }.handOut now) := by
  have hmore : ∀ c ∈ Chore.handOut :: rest, c = .handOut := ha ▸ h.handOuts ha
  have hle := h.begunFor_le fun c hc => by rw [h.handOuts ha c hc]; rfl
  have hsilent : b.received = [] → b.waiting = [] := fun hr => (h.silent hr).1
  rcases State.handOut_cases now { b with agenda := rest } with
    ⟨he, _⟩ | ⟨m, p, ps, _, hw, _, he⟩ | ⟨m, p, ps, _, hw, _, he⟩
  · rw [he]
    exact of_posts [] rest rfl (fun c hc => by cases hc)
      (fun c hc => hmore c (List.mem_cons_of_mem _ hc)) (fun _ => hle) h.strangers
      fun hr => ⟨hsilent hr, rfl⟩
  · have hw' : b.waiting = p :: ps := hw
    have hfew : b.knows inbox = false → ∀ q ∈ ps, q.inbox ≠ inbox := fun hk q hq =>
      h.strangers hk q (hw' ▸ List.mem_cons_of_mem _ hq)
    rw [hw', begunFor_cons] at hle
    rw [he]
    refine of_posts [.post p.inbox (.status (p.closing Code.conflict (State.stopText p)))]
      (.handOut :: rest) rfl (fun c hc => by rw [List.mem_singleton.1 hc]; rfl) hmore
      (fun _ => ?_) hfew fun hr => by cases (hsilent hr).symm.trans hw'
    rw [postsFor_post]
    show Solvent (begunFor inbox ps) k _
    split
    · rename_i hi
      have hstop := debit_stop_le p
      simp only [hi, true_and] at hle
      exact ⟨by omega, show begunFor inbox ps ≤ k - _ + 0 by omega⟩
    · exact Nat.le_trans (Nat.le_add_right _ _) hle
  · have hw' : b.waiting = p :: ps := hw
    rw [hw', begunFor_cons] at hle
    rw [he]
    have happ : (State.handed (p.charged m.size now) m ++ [Chore.handOut]) ++ rest =
        State.handed (p.charged m.size now) m ++ .handOut :: rest := List.append_assoc ..
    refine of_posts _ _ happ ?_ hmore (fun _ => ?_) (fun hk q hq => ?_)
      fun hr => by cases (hsilent hr).symm.trans hw'
    · intro c hc
      unfold State.handed at hc
      rcases List.mem_cons.1 hc with rfl | hc
      · rfl
      · split at hc
        · rw [List.mem_singleton.1 hc]
          rfl
        · cases hc
    · refine Solvent.mono (solvent_handed inbox m
        (Nat.le_trans (Nat.le_add_right (begunFor inbox ps) _) hle)) ?_
      show begunFor inbox (if _ then ps else p.charged m.size now :: ps) ≤ _
      split
      · exact Nat.le_refl _
      · exact Nat.le_of_eq (begunFor_cons _ _ _)
    · have hmem : q ∈ p.charged m.size now :: ps := by
        change q ∈ (if _ then ps else p.charged m.size now :: ps) at hq
        split at hq
        · exact List.mem_cons_of_mem _ hq
        · exact hq
      rcases List.mem_cons.1 hmem with rfl | hmem
      · exact h.strangers hk p (hw' ▸ List.mem_cons_self)
      · exact h.strangers hk q (hw' ▸ List.mem_cons_of_mem _ hmem)

/-- A chore that is no post. -/
theorem work (h : Paced inbox k b) (hw : b.work now = (b', none)) : Paced inbox k b' := by
  rcases State.work_cases now b with ⟨_, he⟩ | ⟨dest, f, rest, _, he⟩ | ⟨rest, ha, he⟩ |
    ⟨dest, rest, ha, _⟩
  · rw [he] at hw
    cases hw
    exact h
  · rw [he] at hw
    cases hw
  · rw [he] at hw
    cases hw
    exact h.handOut now ha
  · exact absurd (ha ▸ List.mem_cons_self) (h.patient dest)

/-- A post goes out. It is counted if it is for the inbox and that is registered. -/
theorem post (h : Paced inbox k b) {dest : String} {f : Frame}
    (ha : b.agenda = .post dest f :: rest) :
    (dest = inbox ∧ b.knows inbox = true →
        f.debit ≤ k ∧ Paced inbox (k - f.debit + f.credit) { b with agenda := rest }) ∧
      (¬(dest = inbox ∧ b.knows inbox = true) → Paced inbox k { b with agenda := rest }) := by
  have htidy : Tidy rest := (List.pairwise_cons.1 (ha ▸ h.tidy)).2
  have hpatient : ∀ d, .endNoWait d ∉ rest := fun d hd =>
    h.patient d (ha ▸ List.mem_cons_of_mem _ hd)
  have hsilent : b.received = [] → b.waiting = [] ∧ ∀ c ∈ rest, c.isPost = false := fun hr => by
    have hpost := (h.silent hr).2 (.post dest f) (ha ▸ List.mem_cons_self)
    cases hpost
  have hs := h.solvent
  rw [ha, postsFor_post] at hs
  refine ⟨fun ⟨hd, hk⟩ => ?_, fun hn => ⟨htidy, hpatient, fun hk => ?_, h.strangers, hsilent⟩⟩
  · rw [if_pos hd] at hs
    exact ⟨(hs hk).1, htidy, hpatient, fun _ => (hs hk).2, h.strangers, hsilent⟩
  · rw [if_neg fun hd => hn ⟨hd, hk⟩] at hs
    exact hs hk

theorem forget (h : Paced inbox k b) (dest : String) : Paced inbox k (b.forget dest) where
  tidy := h.tidy
  patient := h.patient
  solvent := fun hk => by
    have hmem : inbox ∈ b.inboxes.filter (· != dest) := List.contains_iff_mem.1 hk
    have hknown : b.knows inbox = true := List.contains_iff_mem.2 (List.mem_filter.1 hmem).1
    exact (h.solvent hknown).mono (List.filter_sublist ..).countP_le
  strangers := fun hk p hp hi => by
    obtain ⟨hp, hne⟩ := List.mem_filter.1 hp
    cases hknown : b.knows inbox with
    | false => exact h.strangers hknown p hp hi
    | true =>
      have hstill : (b.forget dest).knows inbox = true :=
        List.contains_iff_mem.2 (List.mem_filter.2 ⟨List.contains_iff_mem.1 hknown, hi ▸ hne⟩)
      exact Bool.false_ne_true (hk.symm.trans hstill)
  silent := fun hr => by
    obtain ⟨hw, hno⟩ := h.silent hr
    refine ⟨?_, hno⟩
    show b.waiting.filter _ = []
    rw [hw]
    rfl

/-- What is forgotten costs nothing. -/
theorem forgotten (h : Paced inbox k b) (n : Nat) : Paced inbox n (b.forget inbox) :=
  { h.forget inbox with
    solvent := fun hk => by
      rw [State.knows_forget] at hk
      cases hk }

theorem register (h : Paced inbox k b) (ha : b.agenda = []) (dest : String) :
    Paced inbox k { b with inboxes := dest :: b.inboxes.filter (· != dest) } where
  tidy := h.tidy
  patient := h.patient
  solvent := fun _ => by
    show Solvent (begunFor inbox b.waiting) k (postsFor inbox b.agenda)
    rw [ha]
    exact h.begunFor_le_of_rest ha
  strangers := fun hk => by
    refine h.strangers ?_
    cases hknown : b.knows inbox with
    | false => rfl
    | true =>
      have hmem : inbox ∈ dest :: b.inboxes.filter (· != dest) := by
        by_cases hd : inbox = dest
        · exact hd ▸ List.mem_cons_self
        · exact List.mem_cons_of_mem _ (List.mem_filter.2
            ⟨List.contains_iff_mem.1 hknown, by simpa using hd⟩)
      exact absurd (hk.symm.trans (List.contains_iff_mem.2 hmem)) Bool.false_ne_true
  silent := h.silent

/-- A request is refused, or taken on to wait. -/
theorem request (h : Paced inbox k b) (now : Nat) (ha : b.agenda = []) (dest : String)
    {r : PullRequest} (hp : r.noWait = false) : Paced inbox k (b.request now dest r) := by
  have hle := h.begunFor_le_of_rest ha
  rcases State.request_cases now dest r b with ⟨_, he⟩ | ⟨s, _, hs, he⟩ | ⟨hd, _, he⟩
  · rw [he]
    exact ⟨h.tidy, h.patient, h.solvent, h.strangers, fun hr => by cases hr⟩
  · rw [he]
    refine of_posts [.post dest (.status s)] b.agenda rfl
      (fun c hc => by rw [List.mem_singleton.1 hc]; rfl) (fun c hc => by cases ha ▸ hc)
      (fun _ => ?_) h.strangers fun hr => by cases hr
    refine solvent_of_neutral (fun f hf => ?_) hle
    rw [postsFor_post] at hf
    split at hf
    · rw [List.mem_singleton.1 hf]
      exact ⟨rfl, Frame.debit_of_not_reacts (reacts_of_refusal? hs)⟩
    · cases hf
  · rw [he, hp, if_neg Bool.false_ne_true]
    refine of_posts [] (.handOut :: b.agenda) rfl (fun c hc => by cases hc) ?_ (fun _ => ?_) ?_
      fun hr => by cases hr
    · rw [ha]
      exact fun c hc => List.mem_singleton.1 hc
    · show begunFor inbox (b.waiting ++ [_]) ≤ k
      unfold begunFor
      rw [List.countP_append, List.countP_singleton, if_neg (by simp [WaitingPull.ofRequest])]
      exact hle
    · intro hk p hp
      rcases List.mem_append.1 hp with hp | hp
      · exact h.strangers hk p hp
      · rw [List.mem_singleton.1 hp]
        rintro rfl
        exact Bool.false_ne_true (hk.symm.trans hd)

/-- A command is taken in when nothing is left to do. -/
theorem accept (h : Paced inbox k b) (now : Nat) (ha : b.agenda = []) {c : Command}
    (hc : ∀ dest f, c ≠ .inject dest f) (hp : ∀ dest r, c = .pull dest r → r.noWait = false) :
    Paced inbox k (b.accept now c) := by
  cases c with
  | publish m =>
    refine of_posts [] (.handOut :: b.agenda) rfl (fun c hc => by cases hc) ?_
      (fun _ => h.begunFor_le_of_rest ha) h.strangers fun hr => ⟨(h.silent hr).1, rfl⟩
    rw [ha]
    exact fun c hc => List.mem_singleton.1 hc
  | register dest => exact h.register ha dest
  | pull dest r => exact h.request now ha dest (hp dest r rfl)
  | unsubscribe dest => exact h.forget dest
  | inject dest f => exact absurd rfl (hc dest f)
  | stats asker => exact h
  | pullLog asker => exact h

/-- What is due is neither a credit nor a debit. -/
theorem neutral_due {p : WaitingPull} {f : Frame} (hf : (State.due now p).1 = some f) :
    f.credit = 0 ∧ f.debit = 0 := by
  rcases State.due_cases now p with ⟨he, _⟩ | ⟨t, he⟩ | he
  · rw [he] at hf
    cases hf
    exact ⟨rfl, Frame.debit_of_isTimeout rfl⟩
  · rw [he] at hf
    cases hf
    exact ⟨rfl, Frame.debit_of_not_reacts Frame.reacts_beat⟩
  · rw [he] at hf
    cases hf

/-- A pull that goes on has its inbox, and has brought a message only if it had before. -/
theorem due_left {p q : WaitingPull} (h : (State.due now p).2 = some q) :
    q.inbox = p.inbox ∧ q.begun = p.begun := by
  rcases State.due_cases now p with ⟨he, _⟩ | ⟨t, he⟩ | he <;> rw [he] at h <;> cases h <;>
    exact ⟨rfl, rfl⟩

theorem begunFor_due_le (inbox : String) (now : Nat) (ps : List WaitingPull) :
    begunFor inbox (ps.filterMap fun p => (State.due now p).2) ≤ begunFor inbox ps := by
  induction ps with
  | nil => exact Nat.le_refl _
  | cons p ps ih =>
    rw [begunFor_cons]
    cases hq : (State.due now p).2 with
    | none =>
      rw [List.filterMap_cons_none (by exact hq)]
      exact Nat.le_trans ih (Nat.le_add_right _ _)
    | some q =>
      obtain ⟨hi, hb⟩ := due_left hq
      rw [List.filterMap_cons_some (by exact hq), begunFor_cons, hi, hb]
      exact Nat.add_le_add_right ih _

theorem fireTimers (h : Paced inbox k b) (now : Nat) (ha : b.agenda = []) :
    Paced inbox k (b.fireTimers now) := by
  refine of_posts (b.waiting.filterMap fun p => (State.due now p).1.map (Chore.post p.inbox))
    b.agenda rfl (fun c hc => ?_) (fun c hc => by cases ha ▸ hc) (fun _ => ?_)
    (fun hk q hq => ?_) fun hr => ?_
  · obtain ⟨p, _, hp⟩ := List.mem_filterMap.1 hc
    obtain ⟨f, _, rfl⟩ := Option.map_eq_some_iff.1 hp
    rfl
  · refine Solvent.mono (solvent_of_neutral (fun f hf => ?_) (h.begunFor_le_of_rest ha))
      (begunFor_due_le inbox now _)
    obtain ⟨q, hq, rfl⟩ := List.mem_map.1 hf
    obtain ⟨c, hc, hpost⟩ := List.mem_filterMap.1 (List.mem_filter.1 hq).1
    obtain ⟨p, _, hp⟩ := List.mem_filterMap.1 hc
    obtain ⟨g, hg, rfl⟩ := Option.map_eq_some_iff.1 hp
    cases hpost
    exact neutral_due hg
  · obtain ⟨p, hp, hpq⟩ := List.mem_filterMap.1 hq
    rw [(due_left hpq).1]
    exact h.strangers hk p hp
  · have hw := (h.silent hr).1
    refine ⟨?_, ?_⟩
    · show b.waiting.filterMap _ = []
      rw [hw]
      rfl
    · rw [hw]
      rfl

end Paced

end Broker

end DemandFlow
