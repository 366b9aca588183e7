/-
  Reading JSON from bytes, at the level of what may be left over: blanks, fixed words, and
  values that are passed by without a look at their meaning. A fault is told by its cause: bytes
  that no document holds (`malformed`), an end in the middle of a document (`truncated`), or a
  document that does not fit what is asked of it (`unsuitable`).
-/

namespace DemandFlow.Json

abbrev Bytes := List UInt8

/-- Why a body cannot be read. -/
inductive Fault where
  | malformed
  | truncated
  | unsuitable
deriving DecidableEq

/-- What is read from the front of some bytes: its result and the bytes that follow. -/
abbrev Scanned (α : Type) := Except Fault (α × Bytes)

/-- The bytes of a text. -/
def bytesOf (s : String) : Bytes := s.toUTF8.toList

namespace Byte

def quote : UInt8 := 0x22
def plus : UInt8 := 0x2b
def comma : UInt8 := 0x2c
def minus : UInt8 := 0x2d
def dot : UInt8 := 0x2e
def zero : UInt8 := 0x30
def nine : UInt8 := 0x39
def colon : UInt8 := 0x3a
def openList : UInt8 := 0x5b
def backslash : UInt8 := 0x5c
def closeList : UInt8 := 0x5d
def openObject : UInt8 := 0x7b
def closeObject : UInt8 := 0x7d

/-- Space, tab, line feed and carriage return. -/
def isBlank (b : UInt8) : Bool := b == 0x20 || b == 0x09 || b == 0x0a || b == 0x0d

def isDigit (b : UInt8) : Bool := zero ≤ b && b ≤ nine

/-- The letter `e` of an exponent, in either case. -/
def isExponent (b : UInt8) : Bool := b == 0x65 || b == 0x45

end Byte

def skipBlanks (s : Bytes) : Bytes := s.dropWhile Byte.isBlank

/-- Pass the bytes of a fixed word. -/
def skipWord : Bytes → Bytes → Except Fault Bytes
  | [], s => .ok s
  | _ :: _, [] => .error .truncated
  | w :: ws, b :: s => if b = w then skipWord ws s else .error .malformed

/-- The rest of the word that `b` opens, where `b` opens one. -/
def wordAfter? (b : UInt8) : Option Bytes :=
  if b = 0x6e then some [0x75, 0x6c, 0x6c]
  else if b = 0x74 then some [0x72, 0x75, 0x65]
  else if b = 0x66 then some [0x61, 0x6c, 0x73, 0x65]
  else none

/-! ## Text between quotes -/

/-- The value of a hexadecimal digit. -/
def hexDigit? (b : UInt8) : Option Nat :=
  if Byte.isDigit b then some (b.toNat - 0x30)
  else if 0x61 ≤ b && b ≤ 0x66 then some (b.toNat - 0x61 + 10)
  else if 0x41 ≤ b && b ≤ 0x46 then some (b.toNat - 0x41 + 10)
  else none

/-- The value of four hexadecimal digits. -/
def hexUnit? (a b c d : UInt8) : Option Nat :=
  match hexDigit? a, hexDigit? b, hexDigit? c, hexDigit? d with
  | some w, some x, some y, some z => some (((w * 16 + x) * 16 + y) * 16 + z)
  | _, _, _, _ => none

/-- The byte that a one-letter escape stands for. -/
def escape? (b : UInt8) : Option UInt8 :=
  if b = Byte.quote then some b
  else if b = Byte.backslash then some b
  else if b = 0x2f then some b
  else if b = 0x62 then some 0x08
  else if b = 0x66 then some 0x0c
  else if b = 0x6e then some 0x0a
  else if b = 0x72 then some 0x0d
  else if b = 0x74 then some 0x09
  else none

/-- Pass a text whose opening quote is behind us. Its escapes have to be well formed; which
code points they name does not matter. -/
def skipText : Bytes → Except Fault Bytes
  | [] => .error .truncated
  | b :: s =>
    if b = Byte.quote then .ok s
    else if b = Byte.backslash then
      match s with
      | [] => .error .truncated
      | e :: r =>
        if e = 0x75 then
          match r with
          | w :: x :: y :: z :: r' =>
            match hexUnit? w x y z with
            | some _ => skipText r'
            | none => .error .malformed
          | _ => .error .truncated
        else
          match escape? e with
          | some _ => skipText r
          | none => .error .malformed
    else if b < 0x20 then .error .malformed
    else skipText s

/-! ## Numbers that nobody reads -/

/-- Pass at least one digit. -/
def skipDigits (s : Bytes) : Except Fault Bytes :=
  match s with
  | b :: r => if Byte.isDigit b then .ok (r.dropWhile Byte.isDigit) else .error .malformed
  | [] => .error .malformed

def skipExponent (s : Bytes) : Except Fault Bytes :=
  match s with
  | b :: r => if b = Byte.plus || b = Byte.minus then skipDigits r else skipDigits s
  | [] => .error .malformed

/-- Pass what may follow the whole part of a number. -/
def skipFraction (s : Bytes) : Except Fault Bytes :=
  match s with
  | b :: r =>
    if b = Byte.dot then
      match skipDigits r with
      | .error e => .error e
      | .ok (c :: r') => if Byte.isExponent c then skipExponent r' else .ok (c :: r')
      | .ok [] => .ok []
    else if Byte.isExponent b then skipExponent r
    else .ok s
  | [] => .ok []

/-- Pass a number without its sign. A zero stands alone in front. -/
def skipNumber (s : Bytes) : Except Fault Bytes :=
  match s with
  | b :: r =>
    if b = Byte.zero then
      match r with
      | c :: _ => if Byte.isDigit c then .error .malformed else skipFraction r
      | [] => .ok []
    else if Byte.isDigit b then skipFraction (r.dropWhile Byte.isDigit)
    else .error .malformed
  | [] => .error .malformed

/-! ## Values that nobody reads -/

/-- What the document may hold next: a value, a key, or what follows a value; `opened` says that
the innermost list or object is still empty. -/
inductive Expect where
  | value
  | opened
  | follow
deriving DecidableEq

/-- The brackets that are open, innermost first; `true` stands for an object. -/
abbrev Nesting := List Bool

/-- Pass a key and its colon. -/
def skipKey (s : Bytes) : Except Fault Bytes :=
  match skipBlanks s with
  | [] => .error .truncated
  | b :: r =>
    if b = Byte.quote then
      match skipText r with
      | .error e => .error e
      | .ok r' =>
        match skipBlanks r' with
        | [] => .error .truncated
        | c :: r'' => if c = Byte.colon then .ok r'' else .error .malformed
    else .error .malformed

/-- Pass the first byte of a value: the rest, and whether it opened a bracket. -/
def skipOpening (b : UInt8) (r : Bytes) : Except Fault (Bytes × Option Bool) :=
  match wordAfter? b with
  | some w => (skipWord w r).map fun r' => (r', none)
  | none =>
    if b = Byte.minus then (skipNumber r).map fun r' => (r', none)
    else if Byte.isDigit b then (skipNumber (b :: r)).map fun r' => (r', none)
    else if b = Byte.quote then (skipText r).map fun r' => (r', none)
    else if b = Byte.openList then .ok (r, some false)
    else if b = Byte.openObject then .ok (r, some true)
    else .error .malformed

/-- Pass the rest of a value inside `nest`, in at most `fuel` steps of one byte or more. -/
def skipFrom : Nat → Expect → Nesting → Bytes → Except Fault Bytes
  | 0, _, _, _ => .error .truncated
  | _ + 1, .follow, [], s => .ok s
  | fuel + 1, .follow, inObject :: nest, s =>
    match skipBlanks s with
    | [] => .error .truncated
    | b :: r =>
      if b = Byte.comma then
        if inObject then
          match skipKey r with
          | .error e => .error e
          | .ok r' => skipFrom fuel .value (true :: nest) r'
        else skipFrom fuel .value (false :: nest) r
      else if b = (if inObject then Byte.closeObject else Byte.closeList) then
        skipFrom fuel .follow nest r
      else .error .malformed
  | fuel + 1, .opened, nest, s =>
    match nest, skipBlanks s with
    | [], _ => .ok s
    | _ :: _, [] => .error .truncated
    | inObject :: outer, b :: r =>
      if b = (if inObject then Byte.closeObject else Byte.closeList) then
        skipFrom fuel .follow outer r
      else if inObject then
        match skipKey (b :: r) with
        | .error e => .error e
        | .ok r' => skipFrom fuel .value nest r'
      else skipFrom fuel .value nest (b :: r)
  | fuel + 1, .value, nest, s =>
    match skipBlanks s with
    | [] => .error .truncated
    | b :: r =>
      match skipOpening b r with
      | .error e => .error e
      | .ok (r', none) => skipFrom fuel .follow nest r'
      | .ok (r', some bracket) => skipFrom fuel .opened (bracket :: nest) r'

/-- Pass one value of any shape and depth. -/
def skipValue (s : Bytes) : Except Fault Bytes := skipFrom (2 * s.length + 2) .value [] s

end DemandFlow.Json
