import DemandFlow.Text.Blank
import DemandFlow.Text.Decimal
import Mathlib.Algebra.GroupWithZero.Nat
import Mathlib.Data.List.TakeWhile

/-
  What texts say, apart from how they are read. `Trims` says what is left of a text without the
  blanks around it, `Spells` which texts spell which count. `trim_eq_iff` and `count?_eq_some_iff`
  compare the two readers with that: leading zeros, a plus sign and blanks at either end make no
  difference, and a count that passes the word is not read at all.
-/

namespace DemandFlow.Text

/-! ## Blanks around a text -/

/-- `core` is what is left of `cs` without the blanks at either end. -/
structure Trims (cs core : List Char) : Prop where
  around : ∃ front back, cs = front ++ (core ++ back) ∧
    (∀ c ∈ front, isBlank c = true) ∧ ∀ c ∈ back, isBlank c = true
  first : ∀ c ∈ core.head?, isBlank c = false
  last : ∀ c ∈ core.getLast?, isBlank c = false

theorem dropWhile_isBlank_of_head {cs : List Char} (h : ∀ c ∈ cs.head?, isBlank c = false) :
    cs.dropWhile isBlank = cs := by
  cases cs with
  | nil => rfl
  | cons c cs =>
    rw [List.dropWhile_cons, h c rfl]
    rfl

theorem isBlank_head_dropWhile {cs : List Char} {c : Char}
    (h : c ∈ (cs.dropWhile isBlank).head?) : isBlank c = false := by
  have hnot := List.head?_dropWhile_not isBlank cs
  rw [Option.mem_def.1 h] at hnot
  exact hnot

theorem trim_append_rest (cs : List Char) : ∃ back, cs.dropWhile isBlank = trim cs ++ back ∧
    ∀ c ∈ back, isBlank c = true := by
  refine ⟨((cs.dropWhile isBlank).reverse.takeWhile isBlank).reverse, ?_, fun c hc => ?_⟩
  · unfold trim
    rw [← List.reverse_append, List.takeWhile_append_dropWhile, List.reverse_reverse]
  · exact List.mem_takeWhile_imp (List.mem_reverse.1 hc)

theorem trims_trim (cs : List Char) : Trims cs (trim cs) := by
  obtain ⟨back, hback, hblank⟩ := trim_append_rest cs
  refine ⟨⟨cs.takeWhile isBlank, back, ?_, fun c hc => List.mem_takeWhile_imp hc, hblank⟩,
    fun c hc => ?_, fun c hc => ?_⟩
  · rw [← hback, List.takeWhile_append_dropWhile]
  · have hhead : c ∈ (cs.dropWhile isBlank).head? := by
      rw [hback, List.head?_append, Option.mem_def.1 hc]
      rfl
    exact isBlank_head_dropWhile hhead
  · unfold trim at hc
    rw [List.getLast?_reverse] at hc
    exact isBlank_head_dropWhile hc

theorem trim_eq_iff {cs core : List Char} : trim cs = core ↔ Trims cs core := by
  constructor
  · rintro rfl
    exact trims_trim cs
  · rintro ⟨⟨front, back, rfl, hfront, hback⟩, hfirst, hlast⟩
    unfold trim
    rw [List.dropWhile_append_of_pos hfront]
    cases core with
    | nil =>
      rw [List.nil_append, List.dropWhile_eq_nil_iff.2 hback]
      rfl
    | cons c core =>
      -- dropping stops at the first character from either side
      have hhead : ∀ d ∈ (c :: core ++ back).head?, isBlank d = false := hfirst
      have hrev : ∀ d ∈ back.reverse, isBlank d = true := fun d hd =>
        hback d (List.mem_reverse.1 hd)
      have hend : ∀ d ∈ (c :: core).reverse.head?, isBlank d = false := fun d hd =>
        hlast d (by rwa [List.head?_reverse] at hd)
      rw [dropWhile_isBlank_of_head hhead, List.reverse_append, List.dropWhile_append_of_pos hrev,
        dropWhile_isBlank_of_head hend, List.reverse_reverse]

theorem trim_of_not_isBlank {cs : List Char} (h : ∀ c ∈ cs, isBlank c = false) : trim cs = cs :=
  trim_eq_iff.2 ⟨⟨[], [], (List.append_nil cs).symm, nofun, nofun⟩,
    fun c hc => h c (List.mem_of_mem_head? hc), fun c hc => h c (List.mem_of_mem_getLast? hc)⟩

/-! ## Digits -/

theorem digit?_eq_of_isDigit {c : Char} (h : c.isDigit = true) :
    digit? c = some (c.toNat - '0'.toNat) := by
  unfold Char.isDigit at h
  simp only [Bool.and_eq_true, decide_eq_true_eq, ge_iff_le] at h
  unfold digit?
  exact if_pos ⟨h.1, h.2⟩

theorem isDigit_of_digit? {c : Char} {d : Nat} (h : digit? c = some d) : c.isDigit = true := by
  unfold digit? at h
  split at h
  · rename_i hc
    unfold Char.isDigit
    exact Bool.and_eq_true_iff.2 ⟨decide_eq_true hc.1, decide_eq_true hc.2⟩
  · cases h

theorem isBlank_of_isDigit {c : Char} (h : c.isDigit = true) : isBlank c = false := by
  unfold Char.isDigit at h
  simp only [Bool.and_eq_true, decide_eq_true_eq, ge_iff_le] at h
  have h1 : 48 ≤ c.toNat := h.1
  have h2 : c.toNat ≤ 57 := h.2
  simp only [isBlank, blankRanges, List.any_cons, List.any_nil, Bool.or_false,
    Bool.or_eq_false_iff, Bool.and_eq_false_iff, decide_eq_false_iff_not]
  omega

/-- The value of a row of digits: each counts by the power of ten of its place. -/
def valueOf : List Char → Nat
  | [] => 0
  | c :: cs => (c.toNat - '0'.toNat) * 10 ^ cs.length + valueOf cs

theorem ofDigitChars_eq_valueOf (ds : List Char) : Nat.ofDigitChars 10 ds 0 = valueOf ds := by
  induction ds with
  | nil => rfl
  | cons c ds ih =>
    rw [Nat.ofDigitChars_cons, Nat.ofDigitChars_eq_ofDigitChars_zero, ih, valueOf, Nat.mul_zero,
      Nat.zero_add, Nat.mul_comm]

/-- Reading digit by digit comes to the sum over the places. -/
theorem digitsFrom?_of_digits {cs : List Char} (h : ∀ c ∈ cs, c.isDigit = true) (acc : Nat) :
    digitsFrom? acc cs = some (Nat.ofDigitChars 10 cs acc) := by
  induction cs generalizing acc with
  | nil => rw [Nat.ofDigitChars_nil]; rfl
  | cons c cs ih =>
    obtain ⟨hc, hcs⟩ := List.forall_mem_cons.1 h
    rw [digitsFrom?, digit?_eq_of_isDigit hc]
    dsimp only
    rw [ih hcs, Nat.ofDigitChars_cons, Nat.mul_comm]

theorem isDigit_of_digitsFrom? {cs : List Char} {acc n : Nat} (h : digitsFrom? acc cs = some n) :
    ∀ c ∈ cs, c.isDigit = true := by
  induction cs generalizing acc with
  | nil => exact fun c hc => nomatch hc
  | cons c cs ih =>
    unfold digitsFrom? at h
    split at h
    · rename_i d hd
      exact List.forall_mem_cons.2 ⟨isDigit_of_digit? hd, ih h⟩
    · cases h

/-! ## Texts that spell a count -/

/-- At least one ASCII digit and nothing else. -/
structure IsNumeral (ds : List Char) : Prop where
  nonempty : ds ≠ []
  digits : ∀ c ∈ ds, c.isDigit = true

/-- The texts of a count: a numeral, or a plus sign and a numeral. -/
inductive Spells : List Char → Nat → Prop
  | bare {ds : List Char} (h : IsNumeral ds) : Spells ds (valueOf ds)
  | signed {ds : List Char} (h : IsNumeral ds) : Spells ('+' :: ds) (valueOf ds)

theorem digits?_of_isNumeral {cs : List Char} (h : IsNumeral cs) :
    digits? cs = some (valueOf cs) := by
  cases cs with
  | nil => exact absurd rfl h.nonempty
  | cons c cs =>
    rw [← ofDigitChars_eq_valueOf]
    exact digitsFrom?_of_digits h.digits 0

theorem isNumeral_of_digits? {cs : List Char} {n : Nat} (h : digits? cs = some n) :
    IsNumeral cs := by
  cases cs with
  | nil => cases h
  | cons c cs => exact ⟨List.cons_ne_nil c cs, isDigit_of_digitsFrom? h⟩

theorem digits?_eq_some_iff {cs : List Char} {n : Nat} :
    digits? cs = some n ↔ IsNumeral cs ∧ valueOf cs = n := by
  constructor
  · intro h
    have hn := isNumeral_of_digits? h
    exact ⟨hn, Option.some.inj ((digits?_of_isNumeral hn).symm.trans h)⟩
  · rintro ⟨hn, rfl⟩
    exact digits?_of_isNumeral hn

theorem spells_signed_iff {ds : List Char} {n : Nat} :
    Spells ('+' :: ds) n ↔ IsNumeral ds ∧ valueOf ds = n := by
  constructor
  · rintro (⟨h⟩ | ⟨h⟩)
    · exact absurd (h.digits '+' List.mem_cons_self) (by decide)
    · exact ⟨h, rfl⟩
  · rintro ⟨h, rfl⟩
    exact .signed h

theorem spells_bare_iff {cs : List Char} {n : Nat} (hs : ∀ ds, cs ≠ '+' :: ds) :
    Spells cs n ↔ IsNumeral cs ∧ valueOf cs = n := by
  constructor
  · rintro (⟨h⟩ | ⟨h⟩)
    · exact ⟨h, rfl⟩
    · exact absurd rfl (hs _)
  · rintro ⟨h, rfl⟩
    exact .bare h

theorem boundedCount?_eq_some_iff {limit n : Nat} {cs : List Char} :
    boundedCount? limit cs = some n ↔ Spells cs n ∧ n ≤ limit := by
  unfold boundedCount?
  rw [Option.filter_eq_some_iff, decide_eq_true_eq, digits?_eq_some_iff]
  split
  · rw [spells_signed_iff]
  · rename_i hs
    rw [spells_bare_iff hs]

theorem count?_eq_some_iff {n : Nat} {cs : List Char} :
    count? cs = some n ↔ Spells cs n ∧ n < 2 ^ 64 := by
  unfold count?
  rw [boundedCount?_eq_some_iff]
  exact and_congr_right fun _ => Nat.lt_succ_iff.symm

/-! ## Counts as they are written -/

theorem isNumeral_toDigits (n : Nat) : IsNumeral (Nat.toDigits 10 n) :=
  ⟨Nat.toDigits_ne_nil, fun _ hc => Nat.isDigit_of_mem_toDigits (by decide) (by decide) hc⟩

theorem valueOf_toDigits (n : Nat) : valueOf (Nat.toDigits 10 n) = n := by
  rw [← ofDigitChars_eq_valueOf, Nat.ofDigitChars_ten_toDigits]

/-- A count that fits a word is read back from its decimal text. -/
theorem count?_toString {n : Nat} (h : n ≤ Count.top) :
    count? (trim (toString n).toList) = some n := by
  have ht : (toString n).toList = Nat.toDigits 10 n := Nat.toList_repr
  have hn := isNumeral_toDigits n
  have hs := Spells.bare hn
  rw [valueOf_toDigits] at hs
  rw [ht, trim_of_not_isBlank fun c hc => isBlank_of_isDigit (hn.digits c hc)]
  exact count?_eq_some_iff.2 ⟨hs, Nat.lt_succ_of_le h⟩

end DemandFlow.Text
