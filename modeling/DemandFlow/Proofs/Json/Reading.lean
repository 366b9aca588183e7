import DemandFlow.Json.Number
import DemandFlow.Json.Text

/-
  Reading back what was written. A count is written in decimal digits, highest first, and the
  reader adds them up in that order, so that a number in one word comes back as it was
  (`readNumber_toString`); a text without quotes, escapes and control characters is written as
  it stands (`readText_bytesOf`). In the other direction a whole number that was read fits a
  word, whatever the bytes were, since digits beyond that are only counted.
-/

namespace DemandFlow.Json

/-! ## The bytes of a text -/

theorem toList_loop (bs : ByteArray) {rest : Bytes} (i : Nat) (done : Bytes)
    (h : bs.data.toList.drop i = rest) :
    ByteArray.toList.loop bs i done = done.reverse ++ rest := by
  induction rest generalizing i done with
  | nil =>
    have hend : ¬i < bs.size := Nat.not_lt.2 (List.drop_eq_nil_iff.1 h)
    rw [ByteArray.toList.loop, if_neg hend, List.append_nil]
  | cons b rest ih =>
    have hi : i < bs.data.toList.length := by
      refine Nat.lt_of_not_le fun hle => ?_
      rw [List.drop_eq_nil_of_le hle] at h
      cases h
    obtain ⟨hb, hrest⟩ := List.cons.inj ((List.drop_eq_getElem_cons hi).symm.trans h)
    have hget : bs.get! i = b := by
      rw [← hb]
      exact getElem!_pos bs.data i hi
    rw [ByteArray.toList.loop, if_pos (show i < bs.size from hi), ih _ _ hrest, hget,
      List.reverse_cons, List.append_assoc, List.singleton_append]

theorem bytesOf_eq (s : String) : bytesOf s = s.toByteArray.data.toList := by
  unfold bytesOf ByteArray.toList
  rw [toList_loop _ 0 [] rfl]
  rfl

theorem bytesOf_append (s t : String) : bytesOf (s ++ t) = bytesOf s ++ bytesOf t := by
  simp only [bytesOf_eq, String.toByteArray_append, ByteArray.data_append, Array.toList_append]

/-- Characters of one byte are written as they stand. -/
theorem bytesOf_ofList {cs : List Char} (h : ∀ c ∈ cs, c.utf8Size = 1) :
    bytesOf (String.ofList cs) = cs.map fun c => c.val.toUInt8 := by
  rw [bytesOf_eq, String.toByteArray_ofList]
  induction cs with
  | nil => rfl
  | cons c cs ih =>
    have hc : ([c] : List Char).utf8Encode.data.toList = [c.val.toUInt8] := by
      rw [List.utf8Encode_singleton, String.utf8EncodeChar_eq_singleton (h c List.mem_cons_self)]
      rfl
    rw [List.utf8Encode_cons, ByteArray.data_append, Array.toList_append, hc,
      ih fun d hd => h d (List.mem_cons_of_mem _ hd)]
    rfl

theorem fromUTF8?_bytesOf (s : String) : String.fromUTF8? ⟨(bytesOf s).toArray⟩ = some s := by
  have hbytes : (⟨(bytesOf s).toArray⟩ : ByteArray) = s.toByteArray := by
    rw [bytesOf_eq]
  rw [hbytes]
  exact dif_pos s.isValidUTF8

/-! ## Digits -/

def digitByte (d : Nat) : UInt8 := UInt8.ofNat (0x30 + d)

theorem digitByte_of_lt : ∀ d < 10, (Nat.digitChar d).utf8Size = 1 ∧
    (Nat.digitChar d).val.toUInt8 = digitByte d ∧ Byte.isDigit (digitByte d) = true ∧
    (digitByte d).toNat - 0x30 = d ∧ (digitByte d = Byte.zero → d = 0) := by
  decide

theorem bytesOf_toString (n : Nat) :
    bytesOf (toString n) = (Nat.toDigits 10 n).map fun c => c.val.toUInt8 := by
  rw [Nat.toString_eq_ofList_toDigits]
  refine bytesOf_ofList fun c hc => Char.utf8Size_eq_one_iff.2 ?_
  have hdigit : c.isDigit = true := Nat.isDigit_of_mem_toDigits (by decide) (by decide) hc
  have hle : c.val ≤ 57 := (Bool.and_eq_true_iff.1 hdigit).2 |> of_decide_eq_true
  exact UInt32.le_trans hle (by decide)

/-- What holds of one digit, and of a number with one digit more, holds of every number as it is
written. -/
theorem toString_induction {P : Nat → Bytes → Prop} (low : ∀ d < 10, P d [digitByte d])
    (step : ∀ n d, 0 < n → d < 10 → P n (bytesOf (toString n)) →
      P (n * 10 + d) (bytesOf (toString n) ++ [digitByte d])) (n : Nat) :
    P n (bytesOf (toString n)) := by
  induction n using Nat.strongRecOn with
  | ind n ih =>
    by_cases hn : n < 10
    · have hdigit := (digitByte_of_lt n hn).2.1
      rw [bytesOf_toString, Nat.toDigits_of_lt_base hn, List.map_singleton, hdigit]
      exact low n hn
    · have hle : 10 ≤ n := Nat.le_of_not_lt hn
      have hmod : n % 10 < 10 := Nat.mod_lt n (by decide)
      have hsplit : bytesOf (toString n) =
          bytesOf (toString (n / 10)) ++ [digitByte (n % 10)] := by
        rw [bytesOf_toString, bytesOf_toString, Nat.toDigits_of_base_le (by decide) hle,
          List.map_append, List.map_singleton, (digitByte_of_lt _ hmod).2.1]
      have hstep := step (n / 10) (n % 10) (by omega) hmod (ih (n / 10) (by omega))
      rw [hsplit]
      rwa [Nat.div_add_mod' n 10] at hstep

/-! ## Numbers -/

theorem extend_append (acc : Significand) (ds es : Bytes) :
    acc.extend (ds ++ es) = (acc.extend ds).extend es := by
  induction ds generalizing acc with
  | nil => rfl
  | cons d ds ih =>
    rw [List.cons_append, Significand.extend, Significand.extend]
    split
    · exact ih _
    · exact ih _

/-- A written number is a run of digits, with no zero in front unless it stands alone, and adds
up to itself as long as it fits a word. -/
theorem digits_toString (n : Nat) : (∀ b ∈ bytesOf (toString n), Byte.isDigit b = true) ∧
    (∃ b r, bytesOf (toString n) = b :: r ∧ (b = Byte.zero → n = 0 ∧ r = [])) ∧
    (n ≤ Count.top → Significand.extend ⟨0, 0⟩ (bytesOf (toString n)) = ⟨n, 0⟩) := by
  refine toString_induction (P := fun n ds => (∀ b ∈ ds, Byte.isDigit b = true) ∧
    (∃ b r, ds = b :: r ∧ (b = Byte.zero → n = 0 ∧ r = [])) ∧
    (n ≤ Count.top → Significand.extend ⟨0, 0⟩ ds = ⟨n, 0⟩)) (fun d hd => ?_)
    (fun n d hn hd hds => ?_) n
  · obtain ⟨_, _, hdigit, hvalue, hzero⟩ := digitByte_of_lt d hd
    refine ⟨fun b hb => List.mem_singleton.1 hb ▸ hdigit, ⟨_, _, rfl, fun h => ⟨hzero h, rfl⟩⟩,
      fun hle => ?_⟩
    rw [Significand.extend]
    dsimp only
    rw [hvalue, Nat.zero_mul, Nat.zero_add, if_pos ⟨rfl, hle⟩]
    rfl
  · obtain ⟨hall, ⟨b, r, hfirst, hzero⟩, hsum⟩ := hds
    obtain ⟨_, _, hdigit, hvalue, _⟩ := digitByte_of_lt d hd
    refine ⟨fun c hc => ?_, ⟨b, r ++ [digitByte d], by rw [hfirst]; rfl, fun h => ?_⟩,
      fun hle => ?_⟩
    · rcases List.mem_append.1 hc with hc | hc
      · exact hall c hc
      · exact List.mem_singleton.1 hc ▸ hdigit
    · exact absurd (hzero h).1 (Nat.ne_of_gt hn)
    · rw [extend_append, hsum (by omega), Significand.extend]
      dsimp only
      rw [hvalue, if_pos ⟨rfl, hle⟩]
      rfl

/-- What stands behind a value in an object. -/
def Ends (s : Bytes) : Prop := ∃ b r, s = b :: r ∧ (b = Byte.comma ∨ b = Byte.closeObject)

theorem takeWhile_digits {ds rest : Bytes} (hd : ∀ b ∈ ds, Byte.isDigit b = true)
    (hrest : Ends rest) : (ds ++ rest).takeWhile Byte.isDigit = ds ∧
      (ds ++ rest).dropWhile Byte.isDigit = rest := by
  obtain ⟨b, r, rfl, hb⟩ := hrest
  have hend : Byte.isDigit b = false := by rcases hb with rfl | rfl <;> rfl
  rw [List.takeWhile_append_of_pos hd, List.dropWhile_append_of_pos hd,
    List.takeWhile_cons_of_neg (ne_true_of_eq_false hend),
    List.dropWhile_cons_of_neg (ne_true_of_eq_false hend), List.append_nil]
  exact ⟨rfl, rfl⟩

theorem readTail_of_ends {rest : Bytes} (hrest : Ends rest) (n : Nat) :
    readTail true ⟨n, 0⟩ rest = .ok (.whole n, rest) := by
  obtain ⟨b, r, rfl, rfl | rfl⟩ := hrest <;> rfl

/-- A count that fits a word is read back from its decimal digits. -/
theorem readNumber_toString {n : Nat} (hn : n ≤ Count.top) {rest : Bytes} (hrest : Ends rest) :
    readNumber true (bytesOf (toString n) ++ rest) = .ok (.whole n, rest) := by
  obtain ⟨hall, ⟨b, r, hfirst, hzero⟩, hsum⟩ := digits_toString n
  obtain ⟨htake, hdrop⟩ := takeWhile_digits hall hrest
  have hdigit : Byte.isDigit b = true := hall b (hfirst ▸ List.mem_cons_self)
  by_cases hb : b = Byte.zero
  · obtain ⟨rfl, rfl⟩ := hzero hb
    obtain ⟨c, s, rfl, hc⟩ := hrest
    have hend : Byte.isDigit c = false := by rcases hc with rfl | rfl <;> rfl
    have hread : readNumber true (Byte.zero :: c :: s) = readTail true ⟨0, 0⟩ (c :: s) := by
      unfold readNumber
      dsimp only
      rw [if_pos rfl, if_neg (ne_true_of_eq_false hend)]
    rw [hfirst, hb]
    exact hread.trans (readTail_of_ends ⟨c, s, rfl, hc⟩ 0)
  · rw [hfirst, List.cons_append] at htake hdrop ⊢
    rw [hfirst] at hsum
    have hread : readNumber true (b :: (r ++ rest)) = readTail true
        (Significand.extend ⟨0, 0⟩ ((b :: (r ++ rest)).takeWhile Byte.isDigit))
        ((b :: (r ++ rest)).dropWhile Byte.isDigit) := (if_neg hb).trans (if_pos hdigit)
    rw [hread, htake, hdrop, hsum hn]
    exact readTail_of_ends hrest n

/-! ## What is read fits a word -/

theorem value_extend_le {acc : Significand} (h : acc.value ≤ Count.top) (ds : Bytes) :
    (acc.extend ds).value ≤ Count.top := by
  induction ds generalizing acc with
  | nil => exact h
  | cons d ds ih =>
    rw [Significand.extend]
    split
    · rename_i hfits
      exact ih hfits.2
    · exact ih h

/-- An exponent or a fraction makes a number that is no whole one. -/
theorem readExponent_real {significand : Nat} {start : Int} {s r : Bytes} {x : Number}
    (h : readExponent significand start s = .ok (x, r)) : x = .real := by
  unfold readExponent at h
  dsimp only at h
  repeat' split at h
  all_goals cases h
  all_goals rfl

theorem readScale_real {significand : Nat} {start : Int} {s r : Bytes} {x : Number}
    (h : readScale significand start s = .ok (x, r)) : x = .real := by
  unfold readScale at h
  repeat' split at h
  · exact readExponent_real h
  all_goals cases h
  all_goals rfl

theorem readFraction_real {significand before : Nat} {s r : Bytes} {x : Number}
    (h : readFraction significand before s = .ok (x, r)) : x = .real := by
  unfold readFraction at h
  dsimp only at h
  split at h
  · cases h
  · split at h
    · exact readScale_real h
    · cases h

theorem readTail_whole {positive : Bool} {acc : Significand} {s r : Bytes} {n : Nat}
    (h : readTail positive acc s = .ok (.whole n, r)) : n = acc.value := by
  have hsigned : ∀ {n : Nat}, signedWhole positive acc.value = .whole n → n = acc.value := by
    intro n hn
    unfold signedWhole at hn
    repeat' split at hn
    all_goals cases hn
    rfl
  unfold readTail at h
  split at h
  · split at h
    · cases readFraction_real h
    · split at h
      · cases readExponent_real h
      · split at h
        · exact hsigned (Prod.ext_iff.1 (Except.ok.inj h)).1
        · cases readScale_real h
  · split at h
    · exact hsigned (Prod.ext_iff.1 (Except.ok.inj h)).1
    · cases readScale_real h

/-- A whole number that was read fits a word. -/
theorem le_top_of_readNumber {positive : Bool} {s r : Bytes} {n : Nat}
    (h : readNumber positive s = .ok (.whole n, r)) : n ≤ Count.top := by
  have hzero : ∀ {s r : Bytes}, readTail positive ⟨0, 0⟩ s = .ok (.whole n, r) → n ≤ Count.top :=
    fun h => readTail_whole h ▸ Nat.zero_le _
  unfold readNumber at h
  split at h
  · cases h
  · split at h
    · split at h
      · split at h
        · cases h
        · exact hzero h
      · exact hzero (s := []) h
    · split at h
      · rw [readTail_whole h]
        exact value_extend_le (Nat.zero_le _) _
      · cases h

/-! ## Text -/

/-- A byte that stands for itself between quotes. -/
def Byte.isPlain (b : UInt8) : Bool := b != Byte.quote && b != Byte.backslash && 0x20 ≤ b

theorem contentFrom_plain {bs : Bytes} (h : bs.all Byte.isPlain = true) (acc rest : Bytes) :
    contentFrom acc (bs ++ Byte.quote :: rest) = .ok (acc.reverse ++ bs, rest) := by
  induction bs generalizing acc with
  | nil =>
    rw [List.nil_append, contentFrom.eq_def, List.append_nil]
    exact if_pos rfl
  | cons b bs ih =>
    obtain ⟨hb, hbs⟩ := Bool.and_eq_true_iff.1 h
    unfold Byte.isPlain at hb
    obtain ⟨hne, hle⟩ := Bool.and_eq_true_iff.1 hb
    obtain ⟨hquote, hback⟩ := Bool.and_eq_true_iff.1 hne
    have hread : contentFrom acc (b :: (bs ++ Byte.quote :: rest)) =
        contentFrom (b :: acc) (bs ++ Byte.quote :: rest) := by
      rw [contentFrom.eq_def]
      exact (if_neg (bne_iff_ne.1 hquote)).trans ((if_neg (bne_iff_ne.1 hback)).trans
        (if_neg (UInt8.not_lt.2 (of_decide_eq_true hle))))
    rw [List.cons_append, hread, ih hbs, List.reverse_cons, List.append_assoc,
      List.singleton_append]

/-- A text of plain bytes is read back as it was written. -/
theorem readText_bytesOf {s : String} (h : (bytesOf s).all Byte.isPlain = true) (rest : Bytes) :
    readText (bytesOf s ++ Byte.quote :: rest) = .ok (s, rest) := by
  unfold readText
  rw [contentFrom_plain h, List.reverse_nil, List.nil_append]
  dsimp only
  rw [fromUTF8?_bytesOf]

end DemandFlow.Json
