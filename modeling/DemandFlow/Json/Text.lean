import DemandFlow.Json.Scan

/-
  Text whose content is asked for: escapes are replaced by the bytes of the code points that
  they name, two halves of a surrogate pair make one code point, a half on its own is malformed,
  and so is content that is no UTF-8.
-/

namespace DemandFlow.Json

/-- The UTF-8 bytes of a code point. -/
def bytesOfPoint (n : Nat) : Bytes := String.utf8EncodeChar (Char.ofNat n)

def isHighHalf (n : Nat) : Bool := 0xd800 ≤ n && n ≤ 0xdbff

def isLowHalf (n : Nat) : Bool := 0xdc00 ≤ n && n ≤ 0xdfff

/-- The code point that two halves of a pair name. -/
def pairPoint (high low : Nat) : Nat := (high - 0xd800) * 0x400 + (low - 0xdc00) + 0x10000

/-- The content of a text whose opening quote is behind us, after the bytes `acc`, which stand
in reverse order. -/
def contentFrom (acc : Bytes) : Bytes → Scanned Bytes
  | [] => .error .truncated
  | b :: s =>
    if b = Byte.quote then .ok (acc.reverse, s)
    else if b = Byte.backslash then
      match s with
      | [] => .error .truncated
      | e :: r =>
        if e = 0x75 then
          match r with
          | w :: x :: y :: z :: r' =>
            match hexUnit? w x y z with
            | none => .error .malformed
            | some n =>
              if isLowHalf n then .error .malformed
              else if isHighHalf n then
                match r' with
                | [] => .error .truncated
                | c :: r₁ =>
                  if c = Byte.backslash then
                    match r₁ with
                    | [] => .error .truncated
                    | u :: r₂ =>
                      if u = 0x75 then
                        match r₂ with
                        | w' :: x' :: y' :: z' :: r₃ =>
                          match hexUnit? w' x' y' z' with
                          | none => .error .malformed
                          | some low =>
                            if isLowHalf low then
                              contentFrom ((bytesOfPoint (pairPoint n low)).reverse ++ acc) r₃
                            else .error .malformed
                        | _ => .error .truncated
                      else .error .malformed
                  else .error .malformed
              else contentFrom ((bytesOfPoint n).reverse ++ acc) r'
          | _ => .error .truncated
        else
          match escape? e with
          | some c => contentFrom (c :: acc) r
          | none => .error .malformed
    else if b < 0x20 then .error .malformed
    else contentFrom (b :: acc) s

/-- Read a text whose opening quote is behind us. -/
def readText (s : Bytes) : Scanned String :=
  match contentFrom [] s with
  | .error e => .error e
  | .ok (bytes, r) =>
    match String.fromUTF8? ⟨bytes.toArray⟩ with
    | some text => .ok (text, r)
    | none => .error .malformed

end DemandFlow.Json
