import DemandFlow.Count
import DemandFlow.Json.Scan

/-
  Numbers whose value is asked for. A run of digits that fits a 64-bit word is a whole number.
  Everything else (a fraction, an exponent, more digits, a minus sign before zero) stands for a
  binary64, of which only one thing matters here: whether it is finite. The first digits that
  fit a word make the significand, the others only move the exponent, and the binary64 is the
  product of the rounded significand and the rounded power of ten; an infinite product makes the
  body malformed.
-/

namespace DemandFlow.Json

/-- A number as its reader sees it. -/
inductive Number where
  | whole (n : Nat)
  | negative (n : Nat)
  | real
deriving DecidableEq

/-! ## Rounding to binary64 -/

/-- `n` rounded to 53 significant bits, ties to the even neighbour. -/
def round53 (n : Nat) : Nat :=
  let bits := Nat.log2 n + 1
  if bits ≤ 53 then n
  else
    let unit := Nat.pow 2 (bits - 53)
    let q := n / unit
    let r := n % unit
    if unit < 2 * r ∨ (unit = 2 * r ∧ q % 2 = 1) then (q + 1) * unit else q * unit

/-- The least exact product that rounds to infinity. -/
def infiniteFrom : Nat := Nat.pow 2 1024 - Nat.pow 2 970

/-- The largest power of ten below infinity. -/
def topPower : Nat := 308

/-- Whether `significand` times ten to `exponent` is a finite binary64. -/
def isFinite (significand : Nat) (exponent : Int) : Bool :=
  if exponent < 0 then true
  else if exponent.toNat ≤ topPower then
    round53 significand * round53 (Nat.pow 10 exponent.toNat) < infiniteFrom
  else significand == 0

/-! ## Reading -/

/-- A significand in one word, and the digits that still followed it. -/
structure Significand where
  value : Nat
  dropped : Nat

/-- Append digits while the value fits a word; from the first that does not fit, count them. -/
def Significand.extend (acc : Significand) : Bytes → Significand
  | [] => acc
  | b :: ds =>
    let next := acc.value * 10 + (b.toNat - 0x30)
    if acc.dropped = 0 ∧ next ≤ Count.top then Significand.extend ⟨next, 0⟩ ds
    else Significand.extend ⟨acc.value, acc.dropped + 1⟩ ds

/-- The largest exponent that is added up; a longer one is infinite or zero. -/
def topExponent : Nat := 2147483647

def digitsValue (ds : Bytes) : Nat := ds.foldl (fun acc b => acc * 10 + (b.toNat - 0x30)) 0

/-- Whether an exponent part of value `e` leaves the number finite. -/
def finiteWith (significand : Nat) (start : Int) (downward : Bool) (e : Nat) : Bool :=
  if topExponent < e then downward || significand == 0
  else isFinite significand (if downward then start - e else start + e)

/-- Read an exponent whose letter is behind us. -/
def readExponent (significand : Nat) (start : Int) (s : Bytes) : Scanned Number :=
  let downward := match s with
    | b :: _ => b == Byte.minus
    | [] => false
  let body := match s with
    | b :: r => if b = Byte.plus || b = Byte.minus then r else s
    | [] => s
  match body with
  | [] => .error .truncated
  | b :: _ =>
    if Byte.isDigit b then
      let ds := body.takeWhile Byte.isDigit
      if finiteWith significand start downward (digitsValue ds) then
        .ok (.real, body.dropWhile Byte.isDigit)
      else .error .malformed
    else .error .malformed

/-- What follows the digits of a real number: an exponent, or something else. -/
def readScale (significand : Nat) (start : Int) (s : Bytes) : Scanned Number :=
  match s with
  | b :: r =>
    if Byte.isExponent b then readExponent significand start r
    else if isFinite significand start then .ok (.real, s) else .error .malformed
  | [] => if isFinite significand start then .ok (.real, []) else .error .malformed

/-- Read a fraction whose point is behind us; `before` digits were dropped in front of it. -/
def readFraction (significand before : Nat) (s : Bytes) : Scanned Number :=
  match s with
  | [] => .error .truncated
  | b :: _ =>
    if Byte.isDigit b then
      let ds := s.takeWhile Byte.isDigit
      let acc := Significand.extend ⟨significand, 0⟩ ds
      let taken := ds.length - acc.dropped
      readScale acc.value ((before : Int) - taken) (s.dropWhile Byte.isDigit)
    else .error .malformed

/-- A whole number, unless it is minus zero or passes the signed words. -/
def signedWhole (positive : Bool) (n : Nat) : Number :=
  if positive then .whole n
  else if n = 0 ∨ 9223372036854775808 < n then .real
  else .negative n

/-- What follows the whole part of a number. -/
def readTail (positive : Bool) (acc : Significand) (s : Bytes) : Scanned Number :=
  match s with
  | b :: r =>
    if b = Byte.dot then readFraction acc.value acc.dropped r
    else if Byte.isExponent b then readExponent acc.value acc.dropped r
    else if acc.dropped = 0 then .ok (signedWhole positive acc.value, s)
    else readScale acc.value acc.dropped s
  | [] =>
    if acc.dropped = 0 then .ok (signedWhole positive acc.value, [])
    else readScale acc.value acc.dropped []

/-- Read a number whose sign is behind us. A zero stands alone in front. -/
def readNumber (positive : Bool) (s : Bytes) : Scanned Number :=
  match s with
  | [] => .error .truncated
  | b :: r =>
    if b = Byte.zero then
      match r with
      | c :: _ => if Byte.isDigit c then .error .malformed else readTail positive ⟨0, 0⟩ r
      | [] => .ok (signedWhole positive 0, [])
    else if Byte.isDigit b then
      readTail positive (Significand.extend ⟨0, 0⟩ (s.takeWhile Byte.isDigit))
        (s.dropWhile Byte.isDigit)
    else .error .malformed

end DemandFlow.Json
