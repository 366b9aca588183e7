import DemandFlow.Proofs.Broker.Owed

/-
  The line of commands before a broker, as seen from one inbox. Inboxes have numbered names, so
  that a new one is known to nobody; an inbox is registered once, before anything else is asked
  for it. Hence a request finds its inbox registered unless the subscription is over.
-/

namespace DemandFlow.Broker

/-! ## Names of inboxes -/

/-- The name of the inbox with a number. -/
def inboxName (n : Nat) : String := s!"_INBOX.loopback.{n}"

theorem toString_injective {m n : Nat} (h : toString m = toString n) : m = n := by
  have hl : Nat.toDigits 10 m = Nat.toDigits 10 n := by
    have hm : (toString m).toList = Nat.toDigits 10 m := Nat.toList_repr
    have hn : (toString n).toList = Nat.toDigits 10 n := Nat.toList_repr
    rw [← hm, ← hn, h]
  have hm : Nat.ofDigitChars 10 (Nat.toDigits 10 m) 0 = m := Nat.ofDigitChars_ten_toDigits
  have hn : Nat.ofDigitChars 10 (Nat.toDigits 10 n) 0 = n := Nat.ofDigitChars_ten_toDigits
  rw [← hm, ← hn, hl]

theorem inboxName_injective {m n : Nat} (h : inboxName m = inboxName n) : m = n := by
  have hl : "_INBOX.loopback.".toList ++ (toString m).toList =
      "_INBOX.loopback.".toList ++ (toString n).toList := by
    have := congrArg String.toList h
    unfold inboxName at this
    simpa using this
  exact toString_injective (String.toList_injective (List.append_cancel_left hl))

/-! ## Commands and the inboxes that they are about -/

/-- The inbox that a command is about. -/
def Command.dest? : Command → Option String
  | .publish _ => none
  | .register inbox => some inbox
  | .pull inbox _ => some inbox
  | .unsubscribe inbox => some inbox
  | .inject inbox _ => some inbox
  | .stats _ => none
  | .pullLog _ => none

/-- A command of a run without injected frames and without questions; what it asks for fits. -/
def Command.Plain : Command → Prop
  | .publish _ | .register _ | .unsubscribe _ => True
  | .pull _ r => r.Fits
  | .inject _ _ | .stats _ | .pullLog _ => False

theorem State.sound_accept {b : State} {c : Command} (h : b.Sound) (hc : c.Plain) (now : Nat) :
    (b.accept now c).Sound := by
  cases c with
  | publish m =>
    refine State.sound_first ⟨h.waiting, h.agenda⟩ ?_
    intro c hm
    rw [List.mem_singleton.1 hm]
    exact trivial
  | register dest => exact ⟨h.waiting, h.agenda⟩
  | pull dest r => exact State.sound_request h hc now dest
  | unsubscribe dest => exact State.sound_forget h dest
  | inject dest f => exact hc.elim
  | stats asker => exact hc.elim
  | pullLog asker => exact hc.elim

theorem asks_of_dest?_ne {inbox : String} {c : Command} (h : c.dest? ≠ some inbox) :
    c.asks inbox = 0 := by
  cases c with
  | pull dest r =>
    have hne : dest ≠ inbox := fun e => h (by rw [e]; rfl)
    exact if_neg hne
  | publish m => rfl
  | register dest => rfl
  | unsubscribe dest => rfl
  | inject dest f => rfl
  | stats asker => rfl
  | pullLog asker => rfl

theorem asked_eq_zero {inbox : String} {cs : List Command} (h : ∀ c ∈ cs, c.dest? ≠ some inbox) :
    asked inbox cs = 0 := by
  induction cs with
  | nil => rfl
  | cons c cs ih =>
    rw [asked_cons, asks_of_dest?_ne (h c List.mem_cons_self),
      ih fun d hd => h d (List.mem_cons_of_mem _ hd)]

/-- A plain command about something else leaves an inbox as it is. -/
theorem suits_of_dest?_ne {inbox : String} {b : State} {c : Command} (hp : c.Plain)
    (h : c.dest? ≠ some inbox) : State.Suits inbox b c := by
  refine ⟨?_, ?_, ?_⟩
  · intro dest r hc
    subst hc
    exact ⟨hp, fun e => absurd (congrArg some e) h⟩
  · intro hc
    subst hc
    exact h rfl
  · intro dest f hc
    subst hc
    exact hp

/-- Nobody but a registration makes an inbox known. -/
theorem knows_accept {b : State} {c : Command} {inbox : String} {now : Nat}
    (h : c ≠ .register inbox) (hk : (b.accept now c).knows inbox = true) :
    b.knows inbox = true := by
  cases c with
  | publish m => exact hk
  | register dest =>
    have hne : inbox ≠ dest := fun e => h (by rw [e])
    have hm : inbox ∈ dest :: b.inboxes.filter (· != dest) := List.contains_iff_mem.1 hk
    rcases List.mem_cons.1 hm with he | hm
    · exact absurd he hne
    · exact List.contains_iff_mem.2 (List.mem_filter.1 hm).1
  | pull dest r =>
    have he : (b.request now dest r).inboxes = b.inboxes := by
      unfold State.request
      dsimp only
      split
      · split <;> rfl
      · rfl
    unfold State.knows at hk ⊢
    rw [← he]
    exact hk
  | unsubscribe dest =>
    have hm : inbox ∈ b.inboxes.filter (· != dest) := List.contains_iff_mem.1 hk
    exact List.contains_iff_mem.2 (List.mem_filter.1 hm).1
  | inject dest f => exact hk
  | stats asker => exact hk
  | pullLog asker => exact hk

/-! ## The line before a broker -/

/-- An inbox that nothing is about: unknown to the broker, owed nothing, in no command. -/
structure Untouched (inbox : String) (b : State) (cs : List Command) : Prop where
  unknown : b.knows inbox = false
  owed : b.owed inbox = 0
  silent : ∀ c ∈ cs, c.dest? ≠ some inbox

/-- A line of commands in which inboxes from number `n` on are new, and whatever is registered
is registered once and before anything else. -/
structure Lined (n : Nat) (b : State) (cs : List Command) : Prop where
  plain : ∀ c ∈ cs, c.Plain
  fresh : ∀ k, n ≤ k → Untouched (inboxName k) b cs
  once : ∀ inbox pre post, cs = pre ++ .register inbox :: post → Untouched inbox b pre

/-- An inbox that the broker knows or will come to know. -/
def Live (inbox : String) (b : State) (cs : List Command) : Prop :=
  b.knows inbox = true ∨ .register inbox ∈ cs

theorem untouched_mono {inbox : String} {b b' : State} {cs cs' : List Command}
    (h : Untouched inbox b cs) (hk : b'.knows inbox = true → b.knows inbox = true)
    (ho : b'.owed inbox ≤ b.owed inbox) (hc : ∀ c ∈ cs', c ∈ cs) : Untouched inbox b' cs' := by
  refine ⟨?_, Nat.le_zero.1 (h.owed ▸ ho), fun c hm => h.silent c (hc c hm)⟩
  cases hb : b'.knows inbox with
  | false => rfl
  | true =>
    have ht := hk hb
    rw [h.unknown] at ht
    cases ht

theorem untouched_accept {inbox : String} {b : State} {c : Command} {cs : List Command}
    (h : Untouched inbox b (c :: cs)) (hp : c.Plain) (now : Nat) :
    Untouched inbox (b.accept now c) cs := by
  have hd : c.dest? ≠ some inbox := h.silent c List.mem_cons_self
  have hr : c ≠ .register inbox := fun e => hd (by rw [e]; rfl)
  have ho : (b.accept now c).owed inbox ≤ b.owed inbox := by
    rw [State.owed_accept (suits_of_dest?_ne hp hd), asks_of_dest?_ne hd]
    exact Nat.le_refl _
  exact untouched_mono h (knows_accept hr) ho fun d hm => List.mem_cons_of_mem _ hm

theorem lined_start (l : Limits) : Lined 1 (.start l) [] := by
  refine ⟨?_, ?_, ?_⟩
  · intro c hc
    cases hc
  · intro k _
    refine ⟨rfl, rfl, ?_⟩
    intro c hc
    cases hc
  · intro inbox pre post h
    exact absurd h (by simp)

/-- A broker that learns of no inbox and owes none more keeps its line. -/
theorem lined_mono {n : Nat} {b b' : State} {cs : List Command} (h : Lined n b cs)
    (hk : ∀ inbox, b'.knows inbox = true → b.knows inbox = true)
    (ho : ∀ inbox, b'.owed inbox ≤ b.owed inbox) : Lined n b' cs :=
  ⟨h.plain, fun k hle => untouched_mono (h.fresh k hle) (hk _) (ho _) fun _ hm => hm,
    fun inbox pre post he => untouched_mono (h.once inbox pre post he) (hk _) (ho _)
      fun _ hm => hm⟩

theorem untouched_snoc {inbox : String} {b : State} {c : Command} {cs : List Command}
    (h : Untouched inbox b cs) (hc : c.dest? ≠ some inbox) : Untouched inbox b (cs ++ [c]) := by
  refine ⟨h.unknown, h.owed, ?_⟩
  intro d hd
  rcases List.mem_append.1 hd with hd | hd
  · exact h.silent d hd
  · rw [List.mem_singleton.1 hd]
    exact hc

theorem lined_push {n : Nat} {b : State} {c : Command} {cs : List Command} (h : Lined n b cs)
    (hp : c.Plain) (hr : ∀ inbox, c ≠ .register inbox)
    (hc : ∀ k, n ≤ k → c.dest? ≠ some (inboxName k)) : Lined n b (cs ++ [c]) := by
  refine ⟨?_, fun k hle => untouched_snoc (h.fresh k hle) (hc k hle), ?_⟩
  · intro d hd
    rcases List.mem_append.1 hd with hd | hd
    · exact h.plain d hd
    · rw [List.mem_singleton.1 hd]
      exact hp
  · intro inbox pre post he
    rcases post.eq_nil_or_concat with rfl | ⟨post, d, rfl⟩
    · exact absurd (List.cons.inj (List.append_inj' he rfl).2).1 (hr inbox)
    · have he' : cs ++ [c] = (pre ++ .register inbox :: post) ++ [d] := by
        rw [he]
        simp
      exact h.once inbox pre post (List.append_inj' he' rfl).1

/-- The next new inbox is registered. -/
theorem lined_register {n : Nat} {b : State} {cs : List Command} (h : Lined n b cs) :
    Lined (n + 1) b (cs ++ [.register (inboxName n)]) := by
  refine ⟨?_, ?_, ?_⟩
  · intro d hd
    rcases List.mem_append.1 hd with hd | hd
    · exact h.plain d hd
    · rw [List.mem_singleton.1 hd]
      exact trivial
  · intro k hle
    refine untouched_snoc (h.fresh k (by omega)) fun he => ?_
    have := inboxName_injective (Option.some.inj he)
    omega
  · intro inbox pre post he
    rcases post.eq_nil_or_concat with rfl | ⟨post, d, rfl⟩
    · obtain ⟨rfl, hd⟩ := List.append_inj' he rfl
      cases hd
      exact h.fresh n (Nat.le_refl n)
    · have he' : cs ++ [.register (inboxName n)] = (pre ++ .register inbox :: post) ++ [d] := by
        rw [he]
        simp
      exact h.once inbox pre post (List.append_inj' he' rfl).1

theorem lined_accept {n : Nat} {b : State} {c : Command} {cs : List Command}
    (h : Lined n b (c :: cs)) (now : Nat) : Lined n (b.accept now c) cs := by
  have hp : c.Plain := h.plain c List.mem_cons_self
  refine ⟨fun d hd => h.plain d (List.mem_cons_of_mem _ hd),
    fun k hle => untouched_accept (h.fresh k hle) hp now, ?_⟩
  intro inbox pre post he
  exact untouched_accept (h.once inbox (c :: pre) post (by rw [he]; rfl)) hp now

/-! ## Inboxes that are not over -/

theorem live_of_push {inbox : String} {b : State} {c : Command} {cs : List Command}
    (h : Live inbox b (cs ++ [c])) (hc : c ≠ .register inbox) : Live inbox b cs := by
  rcases h with hk | hm
  · exact Or.inl hk
  · rcases List.mem_append.1 hm with hm | hm
    · exact Or.inr hm
    · exact absurd (List.mem_singleton.1 hm).symm hc

theorem live_of_accept {inbox : String} {b : State} {c : Command} {cs : List Command} {now : Nat}
    (h : Live inbox (b.accept now c) cs) : Live inbox b (c :: cs) := by
  by_cases hc : c = .register inbox
  · rw [hc]
    exact Or.inr List.mem_cons_self
  · rcases h with hk | hm
    · exact Or.inl (knows_accept hc hk)
    · exact Or.inr (List.mem_cons_of_mem _ hm)

/-- A command that is taken in suits every inbox that is not over after it. -/
theorem suits_of_live {n : Nat} {inbox : String} {b : State} {c : Command} {cs : List Command}
    {now : Nat} (h : Lined n b (c :: cs)) (hl : Live inbox (b.accept now c) cs) :
    State.Suits inbox b c := by
  have hp : c.Plain := h.plain c List.mem_cons_self
  by_cases hc : c.dest? = some inbox
  · -- whatever is registered later on has nothing about it in front
    have hk : (b.accept now c).knows inbox = true := by
      rcases hl with hk | hm
      · exact hk
      · obtain ⟨pre, post, he⟩ := List.append_of_mem hm
        exact absurd hc ((h.once inbox (c :: pre) post (by rw [he]; rfl)).silent c
          List.mem_cons_self)
    refine ⟨?_, ?_, ?_⟩
    · intro dest r he
      subst he
      refine ⟨hp, fun e => ?_⟩
      subst e
      exact knows_accept (by simp) hk
    · intro he
      subst he
      have hf : (b.forget inbox).knows inbox = true := hk
      rw [State.knows_forget] at hf
      cases hf
    · intro dest f he
      subst he
      exact hp
  · exact suits_of_dest?_ne hp hc

end DemandFlow.Broker
