import DemandFlow.Text.Hidden

/-
  Text between quotes, as log records and descriptions show it. A quote and a backslash take a
  backslash, the tab, the line ends and the zero character have letters of their own, and every
  other hidden character is written by its number.
-/

namespace DemandFlow.Text

/-- The number of a code point in lower-case hexadecimal, between braces. -/
def byNumber (c : Char) : String :=
  "\\u\x7b" ++ String.ofList (Nat.toDigits 16 c.toNat) ++ "\x7d"

/-- One character as it stands between quotes. -/
def quotedChar (c : Char) : String :=
  if c = '\x00' then "\\0"
  else if c = '\t' then "\\t"
  else if c = '\r' then "\\r"
  else if c = '\n' then "\\n"
  else if c = '\x22' then "\\\x22"
  else if c = '\x5c' then "\\\\"
  else if 0x20 ≤ c.toNat ∧ c.toNat < 0x7f then c.toString
  else if isHidden c then byNumber c
  else c.toString

/-- `s` between quotes. -/
def quoted (s : String) : String :=
  "\x22" ++ String.join (s.toList.map quotedChar) ++ "\x22"

end DemandFlow.Text
