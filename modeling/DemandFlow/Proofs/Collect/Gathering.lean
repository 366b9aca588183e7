import DemandFlow.Proofs.Fetch.Errand

/-
  What a list of deliveries yields in a fetch: the messages that come first until a limit is
  reached (`Gathers`), and the error behind them if no limit is reached and there is one (`Ends`).
  Every list yields just one thing, and whoever takes messages one by one comes to it, since what
  was taken leads the list (`Leads`). Bytes are counted as far as a word goes, which tells for
  every limit that fits a word whether it is reached.
-/

namespace DemandFlow

open Broker (weigh weigh_snoc exists_snoc)

/-! ## Deliveries -/

namespace Delivery

/-- The messages before anything else is delivered. -/
def leading : List Delivery → List Message
  | .message m :: ds => m :: leading ds
  | _ => []

/-- The error that a delivery is to its reader. -/
def fault? : Delivery → Option ConsumerError
  | .error e => some (.status e)
  | .liveness d => some (.liveness d)
  | .message _ | .terminus _ => none

theorem leading_append (ms : List Message) (ds : List Delivery) :
    leading (ms.map .message ++ ds) = ms ++ leading ds := by
  induction ms with
  | nil => rfl
  | cons m ms ih => exact congrArg (m :: ·) ih

theorem leading_prefix (ds es : List Delivery) : leading ds <+: leading (ds ++ es) := by
  induction ds with
  | nil => exact List.nil_prefix
  | cons d ds ih =>
    cases d with
    | message m => exact (List.prefix_cons_inj m).2 ih
    | terminus _ | error _ | liveness _ => exact List.nil_prefix

/-- What comes behind messages. -/
theorem getElem?_behind (ms : List Message) (ds : List Delivery) :
    (ms.map Delivery.message ++ ds)[ms.length]? = ds.head? := by
  rw [List.getElem?_append_right (by simp), List.length_map, Nat.sub_self,
    List.head?_eq_getElem?]

/-- A delivery that is no message is an error, or the end of the batch. -/
theorem reading_of_fault {d : Delivery} (h : d.brings = none) :
    reading (some d) = match d.fault? with
      | some e => .error e
      | none => .ok none := by
  cases d with
  | message m => cases h
  | terminus _ | error _ | liveness _ => rfl

end Delivery

namespace FetchOptions

variable {o : FetchOptions} {got ms ns : List Message} {ds rest : List Delivery}

/-! ## What is gathered -/

/-- Messages that come first among the deliveries, before each of which no limit was reached. -/
structure Leads (o : FetchOptions) (ds : List Delivery) (ms : List Message) : Prop where
  first : ms <+: Delivery.leading ds
  below : ∀ before m, before ++ [m] <+: ms → ¬o.Full before

/-- The most of such messages. -/
structure Gathers (o : FetchOptions) (ds : List Delivery) (ms : List Message) : Prop where
  leads : o.Leads ds ms
  longest : ∀ ns, o.Leads ds ns → ns <+: ms

/-- How a fetch ends that has gathered `ms`: with the delivery behind them if that is an error and
no limit is reached, and else without one. -/
inductive Ends (o : FetchOptions) (ds : List Delivery) (ms : List Message) :
    Option ConsumerError → Prop
  | failed {d : Delivery} {e : ConsumerError} (below : ¬o.Full ms)
    (next : ds[ms.length]? = some d) (fault : d.fault? = some e) : Ends o ds ms (some e)
  | done (fair : ¬o.Full ms → ∀ d, ds[ms.length]? = some d → d.fault? = none) : Ends o ds ms none

/-- What deliveries yield in a fetch. -/
structure Yields (o : FetchOptions) (ds : List Delivery) (ms : List Message)
    (e : Option ConsumerError) : Prop where
  gathers : o.Gathers ds ms
  ends : o.Ends ds ms e

theorem Gathers.unique (h : o.Gathers ds ms) (h' : o.Gathers ds ns) : ms = ns :=
  (h'.longest ms h.leads).eq_of_length
    (Nat.le_antisymm (h'.longest ms h.leads).length_le (h.longest ns h'.leads).length_le)

theorem Ends.unique {e e' : Option ConsumerError} (h : o.Ends ds ms e) (h' : o.Ends ds ms e') :
    e = e' := by
  cases h with
  | failed below next fault =>
    cases h' with
    | failed _ next' fault' =>
      cases next.symm.trans next'
      exact congrArg some (Option.some.inj (fault.symm.trans fault'))
    | done fair => cases (fair below _ next).symm.trans fault
  | done fair =>
    cases h' with
    | failed below next fault => cases (fair below _ next).symm.trans fault
    | done _ => rfl

theorem Yields.unique {e e' : Option ConsumerError} (h : o.Yields ds ms e)
    (h' : o.Yields ds ns e') : ms = ns ∧ e = e' := by
  obtain rfl := h.gathers.unique h'.gathers
  exact ⟨rfl, h.ends.unique h'.ends⟩

/-! ## One delivery after the other -/

theorem leads_nil (o : FetchOptions) (ds : List Delivery) : o.Leads ds [] :=
  ⟨List.nil_prefix, fun _ _ h => by simp at h⟩

/-- What leads deliveries leads them when more come in. -/
theorem Leads.append (h : o.Leads ds got) (es : List Delivery) : o.Leads (ds ++ es) got :=
  ⟨h.first.trans (Delivery.leading_prefix ds es), h.below⟩

/-- One message more, before which no limit was reached. -/
theorem Leads.snoc {m : Message} (h : o.Leads (got.map .message ++ .message m :: rest) got)
    (hf : ¬o.Full got) : o.Leads (got.map .message ++ .message m :: rest) (got ++ [m]) := by
  refine ⟨?_, fun before n hn => ?_⟩
  · rw [Delivery.leading_append]
    exact (List.prefix_append_right_inj _).2 (List.prefix_append [m] (Delivery.leading rest))
  · rcases List.prefix_concat_iff.1 hn with he | hn
    · rw [(List.append_inj' he rfl).1]
      exact hf
    · exact h.below before n hn

/-- Nothing more can be taken when a limit is reached, or no message comes next. -/
theorem Leads.gathers (h : o.Leads (got.map .message ++ rest) got)
    (hnext : ¬o.Full got → Delivery.leading rest = []) :
    o.Gathers (got.map .message ++ rest) got := by
  refine ⟨h, fun ns hn => ?_⟩
  by_contra hnot
  obtain ⟨m, hm⟩ := exists_snoc h.first hn.first hnot
  have hmore := hm.trans hn.first
  rw [Delivery.leading_append, hnext (hn.below got m hm), List.append_nil] at hmore
  have hlen := hmore.length_le
  rw [List.length_append, List.length_singleton] at hlen
  exact Nat.not_succ_le_self _ hlen

/-- Whoever has reached a limit is done. -/
theorem Leads.yields_of_full (h : o.Leads (got.map .message ++ rest) got) (hf : o.Full got) :
    o.Yields (got.map .message ++ rest) got none :=
  ⟨h.gathers fun hn => absurd hf hn, .done fun hn => absurd hf hn⟩

/-- So is who has taken all. -/
theorem Leads.yields_of_all (h : o.Leads (got.map .message ++ []) got) :
    o.Yields (got.map .message ++ []) got none := by
  refine ⟨h.gathers fun _ => rfl, .done fun _ d hd => ?_⟩
  cases (Delivery.getElem?_behind got []).symm.trans hd

/-- And who comes to something that is no message, with the error if it is one. -/
theorem Leads.yields_of_brings {d : Delivery} (h : o.Leads (got.map .message ++ d :: rest) got)
    (hf : ¬o.Full got) (hd : d.brings = none) :
    o.Yields (got.map .message ++ d :: rest) got d.fault? := by
  have hbehind := Delivery.getElem?_behind got (d :: rest)
  refine ⟨h.gathers fun _ => ?_, ?_⟩
  · cases d with
    | message m => cases hd
    | terminus _ | error _ | liveness _ => rfl
  · cases he : d.fault? with
    | some e => exact .failed hf hbehind he
    | none =>
      refine .done fun _ c hc => ?_
      cases hbehind.symm.trans hc
      exact he

theorem Leads.exists_yields (h : o.Leads (got.map .message ++ rest) got) :
    ∃ ms e, o.Yields (got.map .message ++ rest) ms e := by
  induction rest generalizing got with
  | nil => exact ⟨got, none, h.yields_of_all⟩
  | cons d rest ih =>
    by_cases hf : o.Full got
    · exact ⟨got, none, h.yields_of_full hf⟩
    cases hd : d.brings with
    | none => exact ⟨got, d.fault?, h.yields_of_brings hf hd⟩
    | some m =>
      obtain rfl : d = .message m := by
        cases d <;> cases hd
        rfl
      have hmove : got.map Delivery.message ++ .message m :: rest =
          (got ++ [m]).map .message ++ rest := by simp
      have hsnoc := h.snoc hf
      rw [hmove] at hsnoc ⊢
      exact ih hsnoc

/-- Every list of deliveries yields something. -/
theorem exists_yields (o : FetchOptions) (ds : List Delivery) : ∃ ms e, o.Yields ds ms e := by
  have h : o.Leads (([] : List Message).map .message ++ ds) [] := o.leads_nil ds
  exact h.exists_yields

end FetchOptions

/-! ## The counts of a fetch -/

namespace Fetch

variable {o : FetchOptions}

/-- A fetch that has got these messages. -/
def having (o : FetchOptions) (got : List Message) : Fetch := got.foldl receive (start o)

theorem having_snoc (o : FetchOptions) (got : List Message) (m : Message) :
    having o (got ++ [m]) = (having o got).receive m := List.foldl_concat ..

/-- Bytes are counted as far as a word goes. -/
theorem having_eq (o : FetchOptions) (got : List Message) : having o got =
    ⟨o.maxMessages, o.maxBytes, got.length, min (weigh got) Count.top, false⟩ := by
  induction got using List.reverseRecOn with
  | nil => rfl
  | append_singleton got m ih =>
    rw [having_snoc, ih, weigh_snoc, List.length_append]
    unfold receive Count.add
    dsimp only
    congr 1
    omega

/-- A limit that fits a word is seen to be reached when it is. -/
theorem isFull_having (hb : o.maxBytes ≤ Count.top) (got : List Message) :
    (having o got).isFull = true ↔ o.Full got := by
  rw [having_eq]
  unfold isFull FetchOptions.Full
  rw [Bool.or_eq_true, Bool.and_eq_true, decide_eq_true_eq, decide_eq_true_eq, decide_eq_true_eq]
  refine or_congr_right (and_congr_right fun _ => ?_)
  dsimp only
  omega

end Fetch

end DemandFlow
