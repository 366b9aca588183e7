import DemandFlow.Proofs.Accounts.Queue
import DemandFlow.Proofs.Lane.Moves

/-
  What holds since a moment in the life of an exchange: every lane made a run of its own since
  then, and the notices and what handlers took in are those of the record. `Since.act` says what a
  step has to keep for that: each lane moves by steps, and inboxes keep their names.
-/

namespace DemandFlow

open Broker (Command asked)

/-! ## What a transport owes -/

namespace Transport

/-- The name of the inbox with a number. -/
def inboxName : Transport → Nat → String
  | .loopback _ => Broker.inboxName
  | .scripted _ => fun n => s!"_INBOX.scripted.{n}"

theorem inboxName_injective (t : Transport) {m n : Nat} (h : t.inboxName m = t.inboxName n) :
    m = n := by
  cases t with
  | loopback l => exact Broker.inboxName_injective h
  | scripted s =>
    have hl : "_INBOX.scripted.".toList ++ (toString m).toList =
        "_INBOX.scripted.".toList ++ (toString n).toList := by
      have := congrArg String.toList h
      unfold inboxName at this
      simpa using this
    exact Broker.toString_injective (String.toList_injective (List.append_cancel_left hl))

/-- The messages that are asked for in commands or owed by the broker. -/
def owing (inbox : String) : Transport → Nat
  | .loopback l => asked inbox l.commands.toList + l.broker.owed inbox
  | .scripted _ => 0

/-- The request for an inbox that a command makes. -/
def requestOf? (inbox : String) : Command → Option PullRequest
  | .pull dest r => if dest = inbox then some r else none
  | .publish _ | .register _ | .unsubscribe _ | .inject _ _ | .stats _ | .pullLog _ => none

/-- The requests for an inbox that the broker has not taken in, or that a script keeps. -/
def requests (inbox : String) : Transport → List PullRequest
  | .loopback l => l.commands.toList.filterMap (requestOf? inbox)
  | .scripted s => (s.pulls.filter fun p => p.1 = inbox).map Prod.snd

/-- What it has still to do for an inbox. -/
def due (inbox : String) (t : Transport) : Due := ⟨t.owing inbox, t.requests inbox⟩

end Transport

/-- A broker and its commands in a calm run with so many inboxes: frames are honest, and nothing
is owed to inboxes that are still to come. -/
structure Loopback.Calm (l : Loopback) (n : Nat) : Prop where
  sound : l.broker.Sound
  plain : ∀ c ∈ l.commands.toList, c.Plain
  fresh : ∀ k, n < k → (Transport.loopback l).owing (Broker.inboxName k) = 0

/-- A transport with so many inboxes. -/
def Transport.Tame (calm : Bool) (n : Nat) : Transport → Prop
  | .loopback l => (l.alive = true → l.nextInbox = n + 1) ∧ (calm = true → l.Calm n)
  | .scripted s => s.nextInbox = n + 1

/-- A transport that goes on with the same inboxes and has no more to do for any of them. -/
structure Transport.Eases (calm : Bool) (n : Nat) (t t' : Transport) : Prop where
  names : t'.inboxName = t.inboxName
  tame : t'.Tame calm n
  due : ∀ inbox, (t.due inbox).Eases calm (t'.due inbox)

namespace Exchange

/-! ## Lanes -/

/-- The lane of a subscription. -/
def lane (x : Exchange) (i : Nat) : Option Lane :=
  match x.subs[i]?, x.feeds[i]? with
  | some s, some f => some ⟨s, f, x.transport.due s.inbox⟩
  | _, _ => none

theorem lane_eq_some {x : Exchange} {i : Nat} {L : Lane} :
    x.lane i = some L ↔ x.subs[i]? = some L.sub ∧ x.feeds[i]? = some L.feed ∧
      L.due = x.transport.due L.sub.inbox := by
  unfold lane
  cases hs : x.subs[i]? with
  | none => simp
  | some s =>
    cases hf : x.feeds[i]? with
    | none => simp
    | some f =>
      cases L with
      | mk sub feed due =>
        simp only [Option.some.injEq, Lane.mk.injEq]
        constructor
        · rintro ⟨rfl, rfl, rfl⟩
          exact ⟨rfl, rfl, rfl⟩
        · rintro ⟨rfl, rfl, rfl⟩
          exact ⟨rfl, rfl, rfl⟩

/-! ## What a deed tells others -/

/-- The notice that a deed leaves. -/
def noticeOf : Nat × Deed → Option Notice
  | (_, .told n) => some n
  | _ => none

/-- The message that a handler took in by a deed. -/
def keptOf : Nat × Deed → Option (Nat × Message)
  | (i, .called m true) => some (i, m)
  | _ => none

/-- Whether notices are kept, and which there are. -/
def heard (x : Exchange) : Bool × List Notice := (x.keepsNotices, x.notices)

/-! ## What holds since a moment -/

/-- Subscriptions, feeds and inboxes go together by their numbers; requests fit a word; and who
waits to answer that a drain is over does so for a subscription that is settled. -/
structure Tame (calm : Bool) (x : Exchange) : Prop where
  sizes : x.feeds.size = x.subs.size
  subs : ∀ (i : Nat) (s : Subscription), x.subs[i]? = some s →
    s.feed = i ∧ s.inbox = x.transport.inboxName (i + 1)
  feeds : ∀ (i : Nat) (f : Feed), x.feeds[i]? = some f → f.inbox = x.transport.inboxName (i + 1)
  transport : x.transport.Tame calm x.subs.size
  sized : calm = true → ∀ (i : Nat) (s : Subscription), x.subs[i]? = some s → s.Sized
  leaving : ∀ c ∈ x.callers, ∀ k, c.activity = .leave k (.flag true) →
    ∃ s : Subscription, x.subs[k]? = some s ∧ s.IsSettled

/-- Since an exchange was `x₀`, the deeds in `past` became known, and it is `x` now. -/
structure Since (calm : Bool) (x₀ : Exchange) (past : List (Nat × Deed)) (x : Exchange) : Prop
    extends Tame calm x where
  grown : x₀.subs.size ≤ x.subs.size
  lanes : ∀ i L, x.lane i = some L → ∃ L₀,
    (x₀.lane i = some L₀ ∨ x₀.subs.size ≤ i ∧ L₀.IsFresh calm) ∧
      Lane.Run calm L₀ (deedsOf i past) L
  born : ∀ p ∈ past, p.1 < x.subs.size
  keeps : x.keepsNotices = x₀.keepsNotices
  notices : x.notices = x₀.notices ++ if x₀.keepsNotices then past.filterMap noticeOf else []
  handled : x.handled.toList = x₀.handled.toList ++ past.filterMap keptOf

variable {calm : Bool} {x₀ x y : Exchange} {past : List (Nat × Deed)}

theorem Since.refl (h : Tame calm x) : Since calm x [] x where
  toTame := h
  grown := Nat.le_refl _
  lanes := fun _ L hL => ⟨L, Or.inl hL, .nil L⟩
  born := fun _ hp => by cases hp
  keeps := rfl
  notices := by simp
  handled := by simp

theorem Tame.lane_of_sub (h : Tame calm x) {i : Nat} {s : Subscription}
    (hs : x.subs[i]? = some s) :
    ∃ f, x.feeds[i]? = some f ∧ x.lane i = some ⟨s, f, x.transport.due s.inbox⟩ := by
  obtain ⟨hlt, _⟩ := Array.getElem?_eq_some_iff.1 hs
  have hf : i < x.feeds.size := by rw [h.sizes]; exact hlt
  refine ⟨x.feeds[i], Array.getElem?_eq_getElem hf, ?_⟩
  exact lane_eq_some.2 ⟨hs, Array.getElem?_eq_getElem hf, rfl⟩

theorem Tame.sub_of_feed (h : Tame calm x) {i : Nat} {f : Feed} (hf : x.feeds[i]? = some f) :
    ∃ s, x.subs[i]? = some s ∧ x.lane i = some ⟨s, f, x.transport.due s.inbox⟩ := by
  obtain ⟨hlt, _⟩ := Array.getElem?_eq_some_iff.1 hf
  have hs : i < x.subs.size := by rw [← h.sizes]; exact hlt
  exact ⟨x.subs[i], Array.getElem?_eq_getElem hs,
    lane_eq_some.2 ⟨Array.getElem?_eq_getElem hs, hf, rfl⟩⟩

/-- What a step has to do to stay within an account of what happened. -/
structure Acts (calm : Bool) (x : Exchange) (new : List (Nat × Deed)) (y : Exchange) : Prop where
  subsSize : y.subs.size = x.subs.size
  feedsSize : y.feeds.size = x.feeds.size
  names : y.transport.inboxName = x.transport.inboxName
  tame : y.transport.Tame calm x.subs.size
  run : ∀ i L', y.lane i = some L' → ∃ L, x.lane i = some L ∧
    Lane.Run calm L (deedsOf i new) L'
  born : ∀ p ∈ new, p.1 < x.subs.size
  callers : ∀ c ∈ y.callers, ∀ k, c.activity = .leave k (.flag true) →
    (∃ s : Subscription, x.subs[k]? = some s ∧ s.IsSettled) ∨
      ∃ d ∈ x.callers, d.activity = c.activity
  keeps : y.keepsNotices = x.keepsNotices
  notices : y.notices = x.notices ++ if x.keepsNotices then new.filterMap noticeOf else []
  handled : y.handled.toList = x.handled.toList ++ new.filterMap keptOf

theorem Acts.tame_after {new : List (Nat × Deed)} (a : Acts calm x new y) (h : Tame calm x) :
    Tame calm y := by
  have hsizes : y.feeds.size = y.subs.size := by rw [a.feedsSize, a.subsSize, h.sizes]
  have hlane : ∀ (i : Nat) (s : Subscription), y.subs[i]? = some s → ∃ (f : Feed) (L : Lane),
      y.feeds[i]? = some f ∧ x.lane i = some L ∧
        Lane.Run calm L (deedsOf i new) ⟨s, f, y.transport.due s.inbox⟩ := by
    intro i s hs
    obtain ⟨hlt, _⟩ := Array.getElem?_eq_some_iff.1 hs
    have hf : i < y.feeds.size := by rw [hsizes]; exact hlt
    have hL : y.lane i = some ⟨s, y.feeds[i], y.transport.due s.inbox⟩ :=
      lane_eq_some.2 ⟨hs, Array.getElem?_eq_getElem hf, rfl⟩
    obtain ⟨L, hx, hrun⟩ := a.run i _ hL
    exact ⟨y.feeds[i], L, Array.getElem?_eq_getElem hf, hx, hrun⟩
  refine ⟨hsizes, ?_, ?_, a.subsSize ▸ a.tame, ?_, ?_⟩
  · intro i s hs
    obtain ⟨f, L, _, hL, hrun⟩ := hlane i s hs
    obtain ⟨hsub, _, _⟩ := lane_eq_some.1 hL
    have hn := hrun.sameNames
    obtain ⟨hfeed, hinbox⟩ := h.subs i L.sub hsub
    exact ⟨hn.feed.trans hfeed, hn.inbox.trans (a.names ▸ hinbox)⟩
  · intro i f hf
    obtain ⟨hlt, _⟩ := Array.getElem?_eq_some_iff.1 hf
    have hs : i < y.subs.size := by rw [← hsizes]; exact hlt
    obtain ⟨g, L, hg, hL, hrun⟩ := hlane i _ (Array.getElem?_eq_getElem hs)
    cases hf.symm.trans hg
    obtain ⟨_, hfeed, _⟩ := lane_eq_some.1 hL
    exact hrun.sameNames.feedInbox.trans (a.names ▸ h.feeds i L.feed hfeed)
  · intro hc i s hs
    obtain ⟨f, L, _, hL, hrun⟩ := hlane i s hs
    obtain ⟨hsub, _, _⟩ := lane_eq_some.1 hL
    exact hrun.keeps (P := fun L => L.sub.Sized) (fun _ _ _ step => step.sized)
      (h.sized hc i L.sub hsub)
  · intro c hc k hk
    have hsettled : ∃ s : Subscription, x.subs[k]? = some s ∧ s.IsSettled := by
      rcases a.callers c hc k hk with hs | ⟨d, hd, he⟩
      · exact hs
      · exact h.leaving d hd k (he.trans hk)
    obtain ⟨s, hs, hsettled⟩ := hsettled
    obtain ⟨hlt, _⟩ := Array.getElem?_eq_some_iff.1 hs
    have hlt' : k < y.subs.size := by rw [a.subsSize]; exact hlt
    obtain ⟨f, L, _, hL, hrun⟩ := hlane k _ (Array.getElem?_eq_getElem hlt')
    obtain ⟨hsub, _, _⟩ := lane_eq_some.1 hL
    cases hs.symm.trans hsub
    exact ⟨_, Array.getElem?_eq_getElem hlt',
      hrun.keeps (P := fun L => L.sub.IsSettled) (fun _ _ _ step => step.settled) hsettled⟩

theorem Since.act {new : List (Nat × Deed)} (h : Since calm x₀ past x) (a : Acts calm x new y) :
    Since calm x₀ (past ++ new) y where
  toTame := a.tame_after h.toTame
  grown := a.subsSize ▸ h.grown
  lanes := by
    intro i L' hL'
    obtain ⟨L, hL, hrun⟩ := a.run i L' hL'
    obtain ⟨L₀, hL₀, hpast⟩ := h.lanes i L hL
    refine ⟨L₀, hL₀, ?_⟩
    rw [deedsOf_append]
    exact hpast.trans hrun
  born := by
    intro p hp
    rw [a.subsSize]
    rcases List.mem_append.1 hp with hp | hp
    · exact h.born p hp
    · exact a.born p hp
  keeps := a.keeps.trans h.keeps
  notices := by
    rw [a.notices, h.notices, h.keeps, List.append_assoc, List.filterMap_append]
    split
    · rfl
    · rfl
  handled := by rw [a.handled, h.handled, List.append_assoc, List.filterMap_append]

/-- What tells nobody anything. -/
theorem Since.act_quiet (h : Since calm x₀ past x) (a : Acts calm x [] y) :
    Since calm x₀ past y := by
  have hs := h.act a
  rwa [List.append_nil] at hs

end Exchange

end DemandFlow
