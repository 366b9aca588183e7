import DemandFlow.Proofs.Demand.Window
import DemandFlow.Proofs.Json.Reading
import DemandFlow.Pull.Body

/-
  Bodies of pull requests on their way out and back. Each field that is set is written as one
  entry, and each entry is read into the place that it came from, so that a written body is read
  as the request on the wire: the same but for spans beyond a word, which arrive as the largest
  one. Whatever body is accepted, the counts in it fit a word, also those of its spans, so that
  the request which comes of it is the same on the wire, and writing and reading it once more
  changes nothing.
-/

namespace DemandFlow.Pull

open Json

/-! ## Values -/

theorem skipBlanks_cons {b : UInt8} (h : Byte.isBlank b = false) (s : Bytes) :
    skipBlanks (b :: s) = b :: s :=
  List.dropWhile_cons_of_neg (ne_true_of_eq_false h)

/-- The bytes are read as `v`, whatever stands behind them. -/
def ReadsAs {α : Type} (read : Bytes → Scanned α) (bs : Bytes) (v : α) : Prop :=
  ∀ rest, Ends rest → read (bs ++ rest) = .ok (v, rest)

/-- A digit is neither blank nor the start of a word. -/
theorem not_isBlank_of_isDigit {b : UInt8} (h : Byte.isDigit b = true) :
    Byte.isBlank b = false ∧ b ≠ 0x6e := by
  refine ⟨Bool.eq_false_iff.2 fun hb => ?_, fun hb => ?_⟩
  · simp only [Byte.isBlank, Bool.or_eq_true, beq_iff_eq] at hb
    rcases hb with ((rfl | rfl) | rfl) | rfl <;> exact absurd h (by decide)
  · subst hb
    exact absurd h (by decide)

theorem readCount_toString {n : Nat} (hn : n ≤ Count.top) :
    ReadsAs readCount (bytesOf (toString n)) n := by
  intro rest hrest
  obtain ⟨hall, ⟨b, r, hfirst, _⟩, _⟩ := digits_toString n
  have hdigit : Byte.isDigit b = true := hall b (hfirst ▸ List.mem_cons_self)
  have hread := readNumber_toString hn hrest
  rw [hfirst, List.cons_append] at hread ⊢
  unfold readCount
  rw [skipBlanks_cons (not_isBlank_of_isDigit hdigit).1]
  dsimp only
  rw [if_pos hdigit, hread]

theorem readOptionalCount_toString {n : Nat} (hn : n ≤ Count.top) :
    ReadsAs readOptionalCount (bytesOf (toString n)) (some n) := by
  intro rest hrest
  obtain ⟨hall, ⟨b, r, hfirst, _⟩, _⟩ := digits_toString n
  have hdigit : Byte.isDigit b = true := hall b (hfirst ▸ List.mem_cons_self)
  have hread := readCount_toString hn rest hrest
  rw [hfirst, List.cons_append] at hread ⊢
  unfold readOptionalCount
  rw [skipBlanks_cons (not_isBlank_of_isDigit hdigit).1]
  dsimp only
  rw [if_neg (not_isBlank_of_isDigit hdigit).2, hread]
  rfl

theorem bytesOf_true : bytesOf "true" = [0x74, 0x72, 0x75, 0x65] := by
  rw [bytesOf_eq]
  rfl

theorem readFlag_true : ReadsAs readFlag (bytesOf "true") true := by
  intro rest _
  rw [bytesOf_true]
  rfl

/-! ## Entries -/

theorem bytesOf_field (key value : String) : bytesOf (field key value) =
    Byte.quote :: (bytesOf key ++ Byte.quote :: Byte.colon :: bytesOf value) := by
  have hopen : bytesOf "\x22" = [Byte.quote] := by
    rw [bytesOf_eq]
    rfl
  have hclose : bytesOf "\x22:" = [Byte.quote, Byte.colon] := by
    rw [bytesOf_eq]
    rfl
  unfold field
  rw [bytesOf_append, bytesOf_append, bytesOf_append, hopen, hclose]
  simp only [List.cons_append, List.nil_append, List.append_assoc]

/-- The entry is read into the fields, whatever stands behind it. -/
structure Enters (f : Fields) (e : String) (g : Fields) : Prop where
  quoted : ∃ r, bytesOf e = Byte.quote :: r
  reads : ∀ rest, Ends rest → readEntry f (bytesOf e ++ rest) = .ok (g, rest)

/-- A value that is read back enters the place of its key. -/
theorem enters_field {α : Type} {f : Fields} {read : Bytes → Scanned α} (put : α → Fields)
    {key value : String} {v : α} (hkey : (bytesOf key).all Byte.isPlain = true)
    (hmember : ∀ s, readMember f key s = readInto none read put s)
    (hvalue : ReadsAs read (bytesOf value) v) : Enters f (field key value) (put v) := by
  refine ⟨⟨_, bytesOf_field key value⟩, fun rest hrest => ?_⟩
  have htext := readText_bytesOf hkey (Byte.colon :: (bytesOf value ++ rest))
  rw [bytesOf_field, List.cons_append, List.append_assoc, List.cons_append, List.cons_append]
  unfold readEntry
  dsimp only
  rw [if_pos rfl, htext]
  dsimp only
  rw [hmember]
  unfold readInto
  dsimp only
  rw [skipBlanks_cons rfl]
  dsimp only
  rw [if_pos rfl, hvalue rest hrest]
  rfl

/-! ## Objects -/

/-- The entries are read one after another. -/
inductive Reads : Fields → List String → Fields → Prop where
  | nil (f : Fields) : Reads f [] f
  | cons {f g h : Fields} {e : String} {es : List String} (first : Enters f e g)
      (rest : Reads g es h) : Reads f (e :: es) h

theorem Reads.append {f g h : Fields} {es es' : List String} (first : Reads f es g)
    (rest : Reads g es' h) : Reads f (es ++ es') h := by
  induction first with
  | nil f => exact rest
  | cons hfirst _ ih => exact .cons hfirst (ih rest)

theorem Reads.singleton {f g : Fields} {e : String} (h : Enters f e g) : Reads f [e] g :=
  .cons h (.nil g)

/-- What stands behind an entry: the others, each after a comma, and the closing brace. -/
def following (es : List String) : Bytes :=
  es.flatMap (fun e => Byte.comma :: bytesOf e) ++ [Byte.closeObject]

theorem following_cons (e : String) (es : List String) :
    following (e :: es) = Byte.comma :: (bytesOf e ++ following es) := by
  unfold following
  rw [List.flatMap_cons, List.append_assoc, List.cons_append]

theorem length_lt_following (es : List String) : es.length < (following es).length := by
  induction es with
  | nil => exact Nat.one_pos
  | cons e es ih =>
    rw [following_cons, List.length_cons, List.length_cons, List.length_append]
    omega

theorem ends_following (es : List String) : Ends (following es) := by
  cases es with
  | nil => exact ⟨_, _, rfl, Or.inr rfl⟩
  | cons e es => exact ⟨_, _, rfl, Or.inl rfl⟩

theorem readEntries_following {f g : Fields} {es : List String} (h : Reads f es g) {fuel : Nat}
    (hfuel : es.length < fuel) :
    readEntries fuel false f (following es) = .ok (g, [Byte.closeObject]) := by
  induction h generalizing fuel with
  | nil f =>
    cases fuel with
    | zero => cases hfuel
    | succ fuel => rfl
  | @cons f g h e es first rest ih =>
    cases fuel with
    | zero => cases hfuel
    | succ fuel =>
      obtain ⟨r, hquote⟩ := first.quoted
      have hread := first.reads (following es) (ends_following es)
      have hskip : skipBlanks (bytesOf e ++ following es) = bytesOf e ++ following es := by
        rw [hquote, List.cons_append, skipBlanks_cons rfl]
      rw [following_cons, readEntries, skipBlanks_cons rfl]
      dsimp only
      rw [if_neg (by decide), if_neg Bool.false_ne_true, if_pos rfl, hskip, hread]
      exact ih (Nat.lt_of_succ_lt_succ hfuel)

theorem readEntries_of_reads {f g : Fields} {e : String} {es : List String}
    (h : Reads f (e :: es) g) {fuel : Nat} (hfuel : es.length < fuel) :
    readEntries (fuel + 1) true f (bytesOf e ++ following es) = .ok (g, [Byte.closeObject]) := by
  cases h with
  | @cons _ f' _ _ _ first rest =>
    obtain ⟨r, hquote⟩ := first.quoted
    have hread := first.reads (following es) (ends_following es)
    rw [hquote, List.cons_append] at hread ⊢
    rw [readEntries, skipBlanks_cons rfl]
    dsimp only
    rw [if_neg (by decide), if_pos rfl, hread]
    exact readEntries_following rest hfuel

/-- The entries of an object, with a comma before each but the first. -/
theorem bytesOf_object (e : String) (es : List String) :
    bytesOf ("\x7b" ++ String.intercalate "," (e :: es) ++ "\x7d") =
      Byte.openObject :: (bytesOf e ++ following es) := by
  have hopen : bytesOf "\x7b" = [Byte.openObject] := by
    rw [bytesOf_eq]
    rfl
  have hclose : bytesOf "\x7d" = [Byte.closeObject] := by
    rw [bytesOf_eq]
    rfl
  have hcomma : bytesOf "," = [Byte.comma] := by
    rw [bytesOf_eq]
    rfl
  have hjoin : bytesOf (String.intercalate "," (e :: es)) ++ [Byte.closeObject] =
      bytesOf e ++ following es := by
    induction es generalizing e with
    | nil => rw [String.intercalate_singleton]; rfl
    | cons e' es ih =>
      rw [String.intercalate_cons_cons, bytesOf_append, bytesOf_append, List.append_assoc, ih,
        hcomma, following_cons, List.append_assoc, List.singleton_append]
  rw [bytesOf_append, bytesOf_append, hopen, hclose, List.append_assoc, hjoin]
  rfl

/-! ## Requests -/

section Request

variable {f : Fields}

theorem isPlain_keys : (bytesOf "batch").all Byte.isPlain = true ∧
    (bytesOf "max_bytes").all Byte.isPlain = true ∧
    (bytesOf "expires").all Byte.isPlain = true ∧
    (bytesOf "idle_heartbeat").all Byte.isPlain = true ∧
    (bytesOf "no_wait").all Byte.isPlain = true := by
  simp only [bytesOf_eq]
  decide

theorem enters_batch (hf : f.batch = none) {n : Nat} (hn : n ≤ Count.top) :
    Enters f (field "batch" (toString n)) { f with batch := some n } :=
  enters_field (fun v => { f with batch := some v }) isPlain_keys.1
    (fun s => by unfold readMember; rw [if_pos rfl, hf]) (readCount_toString hn)

theorem reads_maxBytes (hf : f.maxBytes = none) {n : Nat} (hn : n ≤ Count.top) :
    Reads f (if n = 0 then [] else [field "max_bytes" (toString n)])
      { f with maxBytes := if n = 0 then none else some n } := by
  split
  · rw [← hf]
    exact .nil f
  · exact .singleton (enters_field (fun v => { f with maxBytes := some v }) isPlain_keys.2.1
      (fun s => by unfold readMember; rw [if_neg (by decide), if_pos rfl, hf])
      (readCount_toString hn))

/-- A span goes into its place as nanoseconds in one word. -/
theorem reads_span (put : Option (Option Nat) → Fields) {key : String}
    (hkey : (bytesOf key).all Byte.isPlain = true)
    (hmember : ∀ s, readMember (put none) key s =
      readInto none readOptionalCount (fun v => put (some v)) s) (d : Option Span) :
    Reads (put none) (d.map fun d => field key (toString d.wireNanos)).toList
      (put (d.map fun d => some d.wireNanos)) := by
  cases d with
  | none => exact .nil _
  | some d =>
    exact .singleton (enters_field (fun v => put (some v)) hkey hmember
      (readOptionalCount_toString d.wireNanos_le))

theorem reads_noWait (hf : f.noWait = none) (b : Bool) :
    Reads f (if b then [field "no_wait" "true"] else [])
      { f with noWait := if b then some true else none } := by
  cases b with
  | false =>
    have hsame : ({ f with noWait := none } : Fields) = f := by rw [← hf]
    exact hsame ▸ .nil f
  | true =>
    exact .singleton (enters_field (fun v => { f with noWait := some v }) isPlain_keys.2.2.2.2
      (fun s => by
        unfold readMember
        rw [if_neg (by decide), if_neg (by decide), if_neg (by decide), if_neg (by decide),
          if_pos rfl, hf])
      readFlag_true)

end Request

/-- The fields of a request as they are read back. -/
def fieldsRead (r : PullRequest) : Fields where
  batch := some r.batch
  maxBytes := if r.maxBytes = 0 then none else some r.maxBytes
  expires := r.expires.map fun d => some d.wireNanos
  heartbeat := r.heartbeat.map fun d => some d.wireNanos
  noWait := if r.noWait then some true else none

theorem reads_fields {r : PullRequest} (h : r.Fits) :
    Reads Fields.none (fields r) (fieldsRead r) := by
  have hbatch := Reads.singleton (enters_batch (f := Fields.none) rfl h.batch)
  have hbytes := hbatch.append (reads_maxBytes rfl h.maxBytes)
  have hexpires := hbytes.append (reads_span
    (fun v => { (fieldsRead r) with expires := v, heartbeat := none, noWait := none })
    isPlain_keys.2.2.1
    (fun s => by
      unfold readMember
      rw [if_neg (by decide), if_neg (by decide), if_pos rfl]) r.expires)
  have hheartbeat := hexpires.append (reads_span
    (fun v => { (fieldsRead r) with heartbeat := v, noWait := none })
    isPlain_keys.2.2.2.1
    (fun s => by
      unfold readMember
      rw [if_neg (by decide), if_neg (by decide), if_neg (by decide), if_pos rfl]) r.heartbeat)
  exact hheartbeat.append (reads_noWait rfl r.noWait)

/-- Together the fields are those of the request on the wire. -/
theorem draft?_fieldsRead (r : PullRequest) : (fieldsRead r).draft? = some r.onWire.draft := by
  have hbytes : (if r.maxBytes = 0 then none else some r.maxBytes).getD 0 = r.maxBytes := by
    split
    · rename_i h
      exact h.symm
    · rfl
  have hspan : ∀ o : Option Span, (o.map fun d => some d.wireNanos).join.map Span.mk =
      o.map PullRequest.wireSpan := by
    intro o
    cases o <;> rfl
  have hflag : (if r.noWait then some true else none).getD false = r.noWait := by
    cases r.noWait <;> rfl
  unfold Fields.draft? fieldsRead
  rw [hbytes, hspan, hspan, hflag]
  rfl

/-- A written body is read as the request on the wire. -/
theorem decode_bytesOf_encode {r : PullRequest} (h : r.Fits) :
    decode (bytesOf (encode r)) = .ok r.onWire := by
  obtain ⟨e, es, hfields⟩ : ∃ e es, fields r = e :: es := ⟨_, _, rfl⟩
  have hreads := reads_fields h
  rw [hfields] at hreads
  have hlength : es.length < (bytesOf e ++ following es).length := by
    rw [List.length_append]
    exact Nat.lt_add_left _ (length_lt_following es)
  have hentries := readEntries_of_reads hreads hlength
  have hread : readFields (bytesOf (encode r)) = .ok r.onWire.draft := by
    unfold encode
    rw [hfields, bytesOf_object]
    unfold readFields
    rw [skipBlanks_cons rfl]
    dsimp only
    rw [if_pos rfl, hentries]
    simp only [bind, Except.bind, draft?_fieldsRead]
    rfl
  unfold decode
  rw [hread]
  dsimp only
  rw [PullRequest.build_draft]

/-! ## What is read fits a word -/

theorem exists_of_map {ε α β : Type} {f : α → β} {x : Except ε α} {b : β}
    (h : x.map f = .ok b) : ∃ a, x = .ok a ∧ f a = b := by
  cases x with
  | error e => cases h
  | ok a => exact ⟨a, rfl, Except.ok.inj h⟩

/-- What comes of two readings in a row comes of both. -/
theorem exists_of_bind {ε α β : Type} {f : α → Except ε β} {x : Except ε α} {b : β}
    (h : x >>= f = .ok b) : ∃ a, x = .ok a ∧ f a = .ok b := by
  cases x with
  | error e => cases h
  | ok a => exact ⟨a, rfl, h⟩

theorem le_top_of_readCount {s r : Bytes} {n : Nat} (h : readCount s = .ok (n, r)) :
    n ≤ Count.top := by
  unfold readCount at h
  split at h
  · cases h
  · split at h
    · split at h
      · rename_i hread
        cases h
        exact le_top_of_readNumber hread
      · cases h
      · cases h
    · cases h

theorem le_top_of_readOptionalCount {s r : Bytes} {v : Option Nat}
    (h : readOptionalCount s = .ok (v, r)) : ∀ n, v = some n → n ≤ Count.top := by
  intro n hv
  subst hv
  unfold readOptionalCount at h
  split at h
  · cases h
  · split at h
    · split at h <;> cases h
    · obtain ⟨p, hread, hp⟩ := exists_of_map h
      cases hp
      exact le_top_of_readCount hread

/-- The counts in some fields fit a word. -/
structure Fields.Fits (f : Fields) : Prop where
  batch : ∀ n, f.batch = some n → n ≤ Count.top
  maxBytes : ∀ n, f.maxBytes = some n → n ≤ Count.top
  expires : ∀ n, f.expires.join = some n → n ≤ Count.top
  heartbeat : ∀ n, f.heartbeat.join = some n → n ≤ Count.top

theorem fits_none : Fields.none.Fits := ⟨nofun, nofun, nofun, nofun⟩

/-- What is put into a place was read there. -/
theorem readInto_eq_ok {α : Type} {place : Option α} {read : Bytes → Scanned α} {put : α → Fields}
    {s r : Bytes} {g : Fields} (h : readInto place read put s = .ok (g, r)) :
    ∃ s' v, read s' = .ok (v, r) ∧ g = put v := by
  unfold readInto at h
  split at h
  · cases h
  · split at h
    · cases h
    · split at h
      · obtain ⟨p, hread, hp⟩ := exists_of_map h
        cases hp
        exact ⟨_, _, hread, rfl⟩
      · cases h

theorem Fields.Fits.readMember {f g : Fields} (hf : f.Fits) {key : String} {s r : Bytes}
    (h : Pull.readMember f key s = .ok (g, r)) : g.Fits := by
  unfold Pull.readMember at h
  repeat' split at h
  · obtain ⟨_, v, hread, rfl⟩ := readInto_eq_ok h
    exact { hf with batch := fun n hn => by cases hn; exact le_top_of_readCount hread }
  · obtain ⟨_, v, hread, rfl⟩ := readInto_eq_ok h
    exact { hf with maxBytes := fun n hn => by cases hn; exact le_top_of_readCount hread }
  · obtain ⟨_, v, hread, rfl⟩ := readInto_eq_ok h
    exact { hf with expires := le_top_of_readOptionalCount hread }
  · obtain ⟨_, v, hread, rfl⟩ := readInto_eq_ok h
    exact { hf with heartbeat := le_top_of_readOptionalCount hread }
  · obtain ⟨_, v, _, rfl⟩ := readInto_eq_ok h
    exact { hf with }
  · obtain ⟨_, v, _, rfl⟩ := readInto_eq_ok h
    exact hf

theorem Fields.Fits.readEntry {f g : Fields} (hf : f.Fits) {s r : Bytes}
    (h : Pull.readEntry f s = .ok (g, r)) : g.Fits := by
  unfold Pull.readEntry at h
  repeat' split at h
  all_goals first | cases h | exact hf.readMember h

theorem Fields.Fits.readEntries {fuel : Nat} {first : Bool} {f g : Fields} (hf : f.Fits)
    {s r : Bytes} (h : Pull.readEntries fuel first f s = .ok (g, r)) : g.Fits := by
  induction fuel generalizing first f s with
  | zero => cases h
  | succ fuel ih =>
    rw [Pull.readEntries] at h
    split at h
    · cases h
    · split at h
      · cases h
        exact hf
      · split at h
        · split at h
          · cases h
          · rename_i hentry
            exact ih (hf.readEntry hentry) h
        · split at h
          · split at h
            · cases h
            · rename_i hentry
              exact ih (hf.readEntry hentry) h
          · cases h

theorem readElement_eq_some {α : Type} {first : Bool} {read : Bytes → Scanned α} {s r : Bytes}
    {v : α} (h : readElement first read s = .ok (some v, r)) : ∃ s', read s' = .ok (v, r) := by
  have hmap : ∀ {t : Bytes}, (read t).map (fun p => (some p.1, p.2)) = .ok (some v, r) →
      ∃ s', read s' = .ok (v, r) := by
    intro t ht
    obtain ⟨p, hread, hp⟩ := exists_of_map ht
    cases hp
    exact ⟨t, hread⟩
  unfold readElement at h
  repeat' split at h
  all_goals first | cases h | exact hmap h

theorem fits_of_readElements {s r : Bytes} {f : Fields} (h : readElements s = .ok (f, r)) :
    f.Fits := by
  unfold readElements at h
  obtain ⟨⟨batch, s₁⟩, hbatch, h⟩ := exists_of_bind h
  dsimp only at h
  split at h
  · cases h
  · obtain ⟨⟨maxBytes, s₂⟩, hbytes, h⟩ := exists_of_bind h
    obtain ⟨⟨expires, s₃⟩, hexpires, h⟩ := exists_of_bind h
    obtain ⟨⟨heartbeat, s₄⟩, hheartbeat, h⟩ := exists_of_bind h
    obtain ⟨⟨noWait, s₅⟩, _, h⟩ := exists_of_bind h
    cases h
    have hspan : ∀ {v : Option (Option Nat)} {t t' : Bytes},
        readElement false readOptionalCount t = .ok (v, t') → ∀ n, v.join = some n →
          n ≤ Count.top := by
      intro v t t' hv n hn
      cases v with
      | none => cases hn
      | some v =>
        obtain ⟨_, hread⟩ := readElement_eq_some hv
        exact le_top_of_readOptionalCount hread n hn
    refine ⟨fun n hn => ?_, fun n hn => ?_, hspan hexpires, hspan hheartbeat⟩
    · cases hn
      obtain ⟨_, hread⟩ := readElement_eq_some hbatch
      exact le_top_of_readCount hread
    · cases hn
      obtain ⟨_, hread⟩ := readElement_eq_some hbytes
      exact le_top_of_readCount hread

/-- The fields of a body that is accepted fit a word. -/
theorem fits_of_readFields {s : Bytes} {d : PullRequest.Draft} (h : readFields s = .ok d) :
    ∃ f : Fields, f.Fits ∧ f.draft? = some d := by
  have hkeep : ∀ {f : Fields} {d' : PullRequest.Draft} {r : Bytes}, f.Fits → f.draft? = some d' →
      (do atEnd r; pure d' : Except Fault PullRequest.Draft) = .ok d →
      ∃ f : Fields, f.Fits ∧ f.draft? = some d := by
    intro f d' r hf hd' hd
    obtain ⟨_, _, hd⟩ := exists_of_bind hd
    cases hd
    exact ⟨f, hf, hd'⟩
  unfold readFields at h
  split at h
  · cases h
  · split at h
    · obtain ⟨⟨f, rest⟩, hread, h⟩ := exists_of_bind h
      dsimp only at h
      split at h
      · cases h
      · rename_i hd'
        exact hkeep (fits_none.readEntries hread) hd' h
    · split at h
      · obtain ⟨⟨f, rest⟩, hread, h⟩ := exists_of_bind h
        obtain ⟨rest', _, h⟩ := exists_of_bind h
        split at h
        · cases h
        · rename_i hd'
          exact hkeep (fits_of_readElements hread) hd' h
      · cases h

/-- A request that was read fits the wire, and is the same on it. -/
theorem fits_of_decode {body : Bytes} {r : PullRequest} (h : decode body = .ok r) :
    r.Fits ∧ r.onWire = r := by
  unfold decode at h
  split at h
  · cases h
  · rename_i d hread
    obtain ⟨f, hf, hdraft⟩ := fits_of_readFields hread
    obtain ⟨batch, hbatch, rfl⟩ := Option.map_eq_some_iff.1 hdraft
    have hspan : ∀ {o : Option Nat}, (∀ n, o = some n → n ≤ Count.top) →
        ∀ d, PullRequest.nonzero? (o.map Span.mk) = some d → d.nanos ≤ Count.top := by
      intro o ho d hd
      cases o with
      | none => cases hd
      | some n => exact PullRequest.eq_of_nonzero? hd ▸ ho n rfl
    split at h
    · cases h
    · rename_i q hbuild
      cases h
      unfold PullRequest.Draft.build at hbuild
      split at hbuild
      · cases hbuild
        refine ⟨⟨hf.batch _ hbatch, ?_⟩,
          PullRequest.onWire_eq_iff.2 ⟨hspan hf.expires, hspan hf.heartbeat⟩⟩
        cases hm : f.maxBytes with
        | none => exact Nat.zero_le _
        | some n => exact hf.maxBytes n hm
      · cases hbuild

theorem fits_of_build {d : PullRequest.Draft} {r : PullRequest} (h : d.build = .ok r)
    (hbatch : d.batch ≤ Count.top) (hbytes : d.maxBytes ≤ Count.top) : r.Fits := by
  unfold PullRequest.Draft.build at h
  split at h
  · cases h
    exact ⟨hbatch, hbytes⟩
  · cases h

/-- A request that was built from settings whose counts fit a word is written as a body that is
accepted. What is read from it is the request with its spans held at the largest word, so that it
is the request itself exactly if they fit one. Whatever body is accepted, the request in it asks
for a message at least, neither expires at once nor beats without pause, and is read from the
body that it is written as. -/
theorem body_round_trip :
    (∀ (d : PullRequest.Draft) (r : PullRequest), d.batch ≤ Count.top → d.maxBytes ≤ Count.top →
      d.build = .ok r →
        (∃ q, decode (bytesOf (encode r)) = .ok q ∧ q.batch = r.batch ∧ q.maxBytes = r.maxBytes ∧
          q.expires = r.expires.map (fun s => ⟨min s.nanos Count.top⟩) ∧
          q.heartbeat = r.heartbeat.map (fun s => ⟨min s.nanos Count.top⟩) ∧
          q.noWait = r.noWait) ∧
        (decode (bytesOf (encode r)) = .ok r ↔
          (∀ s, r.expires = some s → s.nanos ≤ Count.top) ∧
            ∀ s, r.heartbeat = some s → s.nanos ≤ Count.top)) ∧
      ∀ (body : Bytes) (r : PullRequest), decode body = .ok r →
        1 ≤ r.batch ∧ (∀ s, r.expires = some s → 0 < s.nanos) ∧
          (∀ s, r.heartbeat = some s → 0 < s.nanos) ∧ decode (bytesOf (encode r)) = .ok r := by
  have hpos : ∀ {o : Option Span}, o ≠ some Span.zero → ∀ s, o = some s → 0 < s.nanos := by
    intro o ho s hs
    refine Nat.pos_of_ne_zero fun hz => ho ?_
    rw [hs, show s = Span.zero from congrArg Span.mk hz]
  refine ⟨fun d r hbatch hbytes hbuild => ?_, fun body r hread => ?_⟩
  · have hread := decode_bytesOf_encode (fits_of_build hbuild hbatch hbytes)
    refine ⟨⟨r.onWire, hread, rfl, rfl, rfl, rfl, rfl⟩, ?_⟩
    rw [hread, Except.ok.injEq]
    exact PullRequest.onWire_eq_iff
  · obtain ⟨hfits, hsame⟩ := fits_of_decode hread
    refine ⟨r.batch_pos, hpos r.expires_ne_zero, hpos r.heartbeat_ne_zero, ?_⟩
    rw [decode_bytesOf_encode hfits, hsame]

/-- Five messages with an expiry that passes a word, and a list in place of an object. -/
theorem longExpiry_round_trip :
    let d : PullRequest.Draft := ⟨5, 0, some ⟨Count.top + 1⟩, none, true⟩
    let body := bytesOf "[5, 64, null, 7]"
    let q : PullRequest :=
      ⟨5, 64, none, some ⟨7⟩, false, by decide, PullRequest.none_ne_zero, by decide⟩
    ∃ r, d.build = .ok r ∧ d.batch ≤ Count.top ∧ d.maxBytes ≤ Count.top ∧
      decode (bytesOf (encode r)) ≠ .ok r ∧ decode body = .ok q ∧
      decode (bytesOf (encode q)) = .ok q := by
  intro d body q
  have hbuild : d.build = .ok ⟨5, 0, some ⟨Count.top + 1⟩, none, true, by decide, by decide,
    PullRequest.none_ne_zero⟩ := rfl
  have hbody : decode body = .ok q := by
    show decode (bytesOf "[5, 64, null, 7]") = .ok q
    rw [bytesOf_eq]
    rfl
  obtain ⟨hwrite, hread⟩ := body_round_trip
  have hlong := (hwrite d _ (by decide) (by decide) hbuild).2
  refine ⟨_, hbuild, by decide, by decide, fun he => ?_, hbody, (hread body q hbody).2.2.2⟩
  exact absurd ((hlong.1 he).1 _ rfl) (by decide)

end DemandFlow.Pull
